import EmbeddedLinux.Lib.Progress
import EmbeddedLinux.RaceCondition.Counter

/-!
# The end of the counter program

The threads wait for each other in two places only: at `counter_mutex`, and `main` in
`pthread_join`.  The thread that has the mutex is in its section and can go on there, and a thread
that `main` waits for has been created.  So some thread can always go on until the process ends, and
each step brings the end nearer: however the threads are interleaved, the program ends, and then
both lines show the same number (`program_ends`), as long as this is an `int`.
-/

namespace EmbeddedLinux.RaceCondition

open CString Interference Transition

variable {numThreads increments : Nat}

/-- `main` and the threads. -/
def threadEquiv (numThreads : Nat) : Option (Fin numThreads) ≃ ThreadId numThreads where
  toFun o := o.elim .main .worker
  invFun
    | .main => none
    | .worker w => some w
  left_inv o := by cases o <;> rfl
  right_inv t := by cases t <;> rfl

instance : Fintype (ThreadId numThreads) := Fintype.ofEquiv _ (threadEquiv numThreads)

/-! ### Who can go on -/

/-- What the two lines show. -/
def expectedLine (n : Int) : List UInt8 := text "Expected counter value: " ++ decimal n ++ text "\n"

def actualLine (n : Int) : List UInt8 := text "Actual counter value  : " ++ decimal n ++ text "\n"

/-- What `main` has done at each of its places. -/
def MainLive (numThreads increments : Nat) (m : Memory numThreads) : Pc → Prop
  | .create i =>
    (∀ w : Fin numThreads, w.val < i → m.created w = true) ∧ i ≤ numThreads ∧ m.out = []
  | .join i => (∀ w, m.created w = true) ∧ i ≤ numThreads ∧ m.out = []
  | .printExpected => m.out = []
  | .printActual => m.out = expectedLine (numThreads * increments)
  | .done => m.exited = true ∧
      m.out = expectedLine (numThreads * increments) ++ actualLine (numThreads * increments)
  | .failed => m.exited = true ∧ m.out = []
  | _ => False

/-- The thread is in `increment_counter`. -/
def Pc.inCounter : Pc → Bool
  | .start | .test _ | .lock _ | .load _ | .add _ _ | .store _ _ | .unlock _ | .done => true
  | _ => false

/-- A thread that has the mutex is in its section, and one that has come to its end has returned. -/
structure WorkerLive (w : Fin numThreads) (pc : Pc) (m : Memory numThreads) : Prop where
  holds : m.counterMutex = some (.worker w) → pc.holds = true
  done : pc = .done → m.returned w = true
  place : pc.inCounter = true

def Live (increments : Nat) : ThreadId numThreads → Pc → Memory numThreads → Prop
  | .main, pc, m => MainLive numThreads increments m pc ∧ m.counterMutex ≠ some .main ∧
      (m.exited = true → pc = .done ∨ pc = .failed)
  | .worker w, pc, m => WorkerLive w pc m

/-- Both sets of assertions. -/
def Asserted (increments : Nat) (t : ThreadId numThreads) (pc : Pc) (m : Memory numThreads) :
    Prop :=
  Assertion increments t pc m ∧ Live increments t pc m

variable {m m' : Memory numThreads} {pc pc' k : Pc} {e : Bool} {w u : Fin numThreads}

theorem mainStep_live (hm : Counted increments m) (ha : MainOk pc m)
    (hl : MainLive numThreads increments m pc) (h : mainStep increments e m pc = some (m', pc')) :
    MainLive numThreads increments m' pc' := by
  cases pc with
  | create i =>
    obtain ⟨hcreated, hi, hout⟩ := hl
    simp only [mainStep] at h
    split at h
    · rename_i hlt
      split at h
      · cases h
        refine ⟨fun w hw => ?_, hlt, hout⟩
        show Function.update m.created ⟨i, hlt⟩ true w = true
        rw [Function.update_apply]
        split
        · rfl
        · rename_i hne
          exact hcreated w (by
            have hwi : w.val ≠ i := fun e => hne (Fin.ext e)
            omega)
      · cases h
        exact ⟨rfl, hout⟩
    · cases h
      exact ⟨fun w => hcreated w (by omega), Nat.zero_le _, hout⟩
  | join i =>
    obtain ⟨hcreated, hi, hout⟩ := hl
    simp only [mainStep] at h
    split at h
    · rename_i hlt
      split at h
      · cases h
        exact ⟨hcreated, hlt, hout⟩
      · cases h
    · cases h
      exact hout
  | printExpected =>
    cases h
    show m.out ++ _ ++ _ ++ _ = _
    rw [show m.out = [] from hl]
    rfl
  | printActual =>
    cases h
    refine ⟨rfl, ?_⟩
    have hsum : m.counter = (numThreads * increments : Nat) := by
      rw [hm.sum, Finset.sum_congr rfl (fun w _ => hm.returned w (ha w))]
      simp
    show m.out ++ _ ++ _ ++ _ = _
    rw [show m.out = _ from hl, hsum, List.append_assoc, List.append_assoc]
    push_cast
    rfl
  | start | test | lock | load | add | store | unlock => exact absurd hl id
  | done | failed => cases h

theorem incrementCounter_live (ha : WorkerOk increments w pc m) (hl : WorkerLive w pc m)
    (h : incrementCounter increments w m pc = some (m', pc')) : WorkerLive w pc' m' := by
  obtain ⟨hholds, hdone, -⟩ := hl
  cases pc with
  | start =>
    simp only [incrementCounter] at h
    split at h
    · cases h
      exact ⟨hholds, fun e => (by cases e), rfl⟩
    · cases h
  | test i =>
    simp only [incrementCounter] at h
    split at h
    · cases h
      exact ⟨hholds, fun e => (by cases e), rfl⟩
    · cases h
      exact ⟨hholds, fun _ => Function.update_self .., rfl⟩
  | lock i =>
    simp only [incrementCounter] at h
    split at h
    · cases h
      exact ⟨fun _ => rfl, fun e => (by cases e), rfl⟩
    · cases h
  | load i | add i x | store i x =>
    cases h
    exact ⟨fun _ => rfl, fun e => (by cases e), rfl⟩
  | unlock i =>
    cases h
    exact ⟨fun e => (by cases e), fun e => (by cases e), rfl⟩
  | create | join | printExpected | printActual | done | failed => cases h

/-- What `main` looks at is left as it is, and the mutex goes to nobody else. -/
theorem incrementCounter_rest (h : incrementCounter increments w m pc = some (m', pc')) :
    m'.created = m.created ∧ m'.out = m.out ∧ m'.exited = m.exited ∧
      ∀ t, t ≠ .worker w → m'.counterMutex = some t → m.counterMutex = some t := by
  unfold incrementCounter at h
  repeat' split at h
  all_goals cases h
  all_goals try exact ⟨rfl, rfl, rfl, fun _ _ h => h⟩
  · exact ⟨rfl, rfl, rfl, fun t hne h => absurd (Option.some_inj.1 h).symm hne⟩
  · exact ⟨rfl, rfl, rfl, fun t _ h => (by cases h)⟩

/-- The process ends where `main` does. -/
theorem mainStep_exited (h : mainStep increments e m pc = some (m', pc')) (hrun : ¬ m.exited = true)
    (hend : m'.exited = true) : pc' = .done ∨ pc' = .failed := by
  unfold mainStep at h
  repeat' split at h
  all_goals cases h
  all_goals first
    | exact absurd hend hrun
    | exact Or.inl rfl
    | exact Or.inr rfl

theorem live_outline (numThreads increments : Nat) :
    Outline (T := ThreadId numThreads) (step increments) (fun _ _ _ _ => True)
      (Counted increments) (Asserted increments) where
  own t e m pc m' pc' hm ha _ h := by
    obtain ⟨hm', ha'⟩ := (outline numThreads increments).own t e m pc m' pc' hm ha.1 trivial h
    refine ⟨hm', ha', ?_⟩
    unfold step at h
    split at h
    · cases h
    rename_i hrun
    cases t with
    | main =>
      refine ⟨mainStep_live hm ha.1 ha.2.1 h, ?_, mainStep_exited h hrun⟩
      rw [(mainStep_frame h).2.1]
      exact ha.2.2.1
    | worker w => exact incrementCounter_live ha.1 ha.2 h
  others t e m pc m' pc' u k hne hm ha hu _ h := by
    refine ⟨(outline numThreads increments).others t e m pc m' pc' u k hne hm ha.1 hu.1 trivial h,
      ?_⟩
    unfold step at h
    split at h
    · cases h
    cases t with
    | main =>
      obtain ⟨-, hmutex, -, hreturned⟩ := mainStep_frame h
      cases u with
      | main => exact absurd rfl hne
      | worker v =>
        obtain ⟨hholds, hdone, hplace⟩ := hu.2
        exact ⟨hmutex ▸ hholds, hreturned ▸ hdone, hplace⟩
    | worker w =>
      obtain ⟨hcreated, hout, hexited, hmutex⟩ := incrementCounter_rest h
      cases u with
      | main =>
        obtain ⟨hl, hnot, hend⟩ := hu.2
        refine ⟨?_, fun e => hnot (hmutex _ hne e), hexited ▸ hend⟩
        cases k with
        | create | join | printExpected | printActual | done | failed =>
          simp only [MainLive, hcreated, hout, hexited] at hl ⊢
          exact hl
        | start | test | lock | load | add | store | unlock => exact hl
      | worker v =>
        obtain ⟨hholds, hdone, hplace⟩ := hu.2
        exact ⟨fun e => hholds (hmutex _ hne e),
          fun e => incrementCounter_returned h (hdone e), hplace⟩

/-! ### The rank -/

/-- The steps that a thread has left. -/
def left (numThreads increments : Nat) : ThreadId numThreads → Pc → Nat
  | .main, .create i => (numThreads - i) + numThreads + 5
  | .main, .join i => (numThreads - i) + 3
  | .main, .printExpected => 2
  | .main, .printActual => 1
  | .worker _, .start => 6 * increments + 2
  | .worker _, .test i => 6 * (increments - i) + 1
  | .worker _, .lock i => 6 * (increments - i)
  | .worker _, .load i => 6 * (increments - i) - 1
  | .worker _, .add i _ => 6 * (increments - i) - 2
  | .worker _, .store i _ => 6 * (increments - i) - 3
  | .worker _, .unlock i => 6 * (increments - i) - 4
  | _, _ => 0

theorem mainStep_left (h : mainStep increments e m pc = some (m', pc')) :
    left numThreads increments .main pc' < left numThreads increments .main pc := by
  cases pc with
  | create i =>
    simp only [mainStep] at h
    split at h
    · split at h
      · cases h
        simp only [left]
        omega
      · cases h
        exact Nat.succ_pos _
    · cases h
      simp only [left]
      omega
  | join i =>
    simp only [mainStep] at h
    split at h
    · split at h
      · cases h
        simp only [left]
        omega
      · cases h
    · cases h
      simp only [left]
      omega
  | printExpected =>
    cases h
    exact Nat.lt_succ_self 1
  | printActual =>
    cases h
    exact Nat.zero_lt_one
  | _ => cases h

theorem incrementCounter_left (ha : WorkerOk increments w pc m)
    (h : incrementCounter increments w m pc = some (m', pc')) :
    left numThreads increments (.worker w) pc' < left numThreads increments (.worker w) pc := by
  have hprogress := ha.progress
  cases pc with
  | start | test i =>
    simp only [incrementCounter] at h
    split at h
    · cases h
      simp only [left]
      omega
    · cases h <;> exact Nat.succ_pos _
  | lock i =>
    obtain ⟨-, hlt⟩ := hprogress
    simp only [incrementCounter] at h
    split at h
    · cases h
      simp only [left]
      omega
    · cases h
  | load i =>
    cases h
    obtain ⟨-, hlt⟩ := hprogress
    simp only [left]
    omega
  | add i x | store i x =>
    cases h
    obtain ⟨-, hlt, -⟩ := hprogress
    simp only [left]
    omega
  | unlock i =>
    cases h
    obtain ⟨-, hlt⟩ := hprogress
    simp only [left]
    omega
  | create | join | printExpected | printActual | done | failed => cases h

/-! ### Somebody can go on -/

/-- A thread in its section can always go on. -/
theorem exists_in_section (hpc : pc.holds = true) :
    ∃ r, incrementCounter increments w m pc = some r := by
  cases pc with
  | load i | add i x | store i x | unlock i => exact ⟨_, rfl⟩
  | _ => cases hpc

/-- A thread that has been created and has not returned can go on, or waits for the mutex. -/
theorem exists_worker (increments : Nat) (hl : WorkerLive w pc m) (hcreated : m.created w = true)
    (hreturned : m.returned w ≠ true) :
    (∃ r, incrementCounter increments w m pc = some r) ∨ m.counterMutex ≠ none := by
  cases pc with
  | start => exact Or.inl ⟨_, if_pos hcreated⟩
  | test i =>
    left
    by_cases hlt : i < increments
    · exact ⟨_, if_pos hlt⟩
    · exact ⟨_, if_neg hlt⟩
  | lock i =>
    by_cases hfree : m.counterMutex = none
    · exact Or.inl ⟨_, if_pos hfree⟩
    · exact Or.inr hfree
  | load i | add i x | store i x | unlock i => exact Or.inl ⟨_, rfl⟩
  | done => exact absurd (hl.done rfl) hreturned
  | create | join | printExpected | printActual | failed => cases hl.place

variable {s : State (ThreadId numThreads) (Memory numThreads) Pc}

/-- A step of `main` is one of the program. -/
theorem exists_main (hrun : s.mem.exited = false) (hpc : s.pc .main = pc)
    (h : ∃ r, mainStep increments true s.mem pc = some r) :
    ∃ a s', next (step increments) s a = some s' := by
  obtain ⟨⟨m, pc'⟩, hr⟩ := h
  refine ⟨(.main, true), s.move .main m pc', next_eq_some.2 ⟨m, pc', ?_, rfl⟩⟩
  rw [step, if_neg (by simp [hrun]), hpc]
  exact hr

/-- A step of another thread. -/
theorem exists_thread (hrun : s.mem.exited = false)
    (h : ∃ r, incrementCounter increments w s.mem (s.pc (.worker w)) = some r) :
    ∃ a s', next (step increments) s a = some s' := by
  obtain ⟨⟨m, pc'⟩, hr⟩ := h
  refine ⟨(.worker w, true), s.move (.worker w) m pc', next_eq_some.2 ⟨m, pc', ?_, rfl⟩⟩
  rw [step, if_neg (by simp [hrun])]
  exact hr

/-- **Until the process ends somebody can go on.** -/
theorem exists_step (h : Holds (Counted increments) (Asserted increments) s)
    (hrun : s.mem.exited = false) : ∃ a s', next (step increments) s a = some s' := by
  obtain ⟨-, ha⟩ := h
  obtain ⟨-, hmain, hnot, -⟩ := ha .main
  cases hpc : s.pc .main with
  | create i =>
    apply exists_main hrun hpc
    by_cases hi : i < numThreads
    · exact ⟨_, (dif_pos hi).trans (if_pos rfl)⟩
    · exact ⟨_, dif_neg hi⟩
  | join i =>
    rw [hpc] at hmain
    obtain ⟨hcreated, -, -⟩ := hmain
    by_cases hi : i < numThreads
    · by_cases hret : s.mem.returned ⟨i, hi⟩ = true
      · exact exists_main hrun hpc ⟨_, (dif_pos hi).trans (if_pos hret)⟩
      · obtain hworker | hheld := exists_worker increments (ha (.worker ⟨i, hi⟩)).2
          (hcreated ⟨i, hi⟩) hret
        · exact exists_thread hrun hworker
        · -- the one that has the mutex can go on
          obtain ⟨t, ht⟩ := Option.ne_none_iff_exists'.1 hheld
          cases t with
          | main => exact absurd ht hnot
          | worker w => exact exists_thread hrun (exists_in_section ((ha (.worker w)).2.holds ht))
    · exact exists_main hrun hpc ⟨_, dif_neg hi⟩
  | printExpected | printActual => exact exists_main hrun hpc ⟨_, rfl⟩
  | done | failed =>
    rw [hpc] at hmain
    cases hrun.symm.trans hmain.1
  | start | test | lock | load | add | store | unlock =>
    rw [hpc] at hmain
    exact absurd hmain id

/-- **The program makes progress.** -/
theorem progress (numThreads increments : Nat) :
    Transition.Progress (next (step increments)) Any
      (Holds (T := ThreadId numThreads) (Counted increments) (Asserted increments))
      (fun s => s.mem.exited = true) (fun s => ∑ t, left numThreads increments t (s.pc t)) := by
  refine ⟨fun s a s' h _ hn => (live_outline numThreads increments).keep h trivial hn,
    fun s a s' h _ hn => ?_, fun s h hnot => ?_⟩
  · obtain ⟨m, pc, hstep, rfl⟩ := next_eq_some.1 hn
    apply sum_move_lt
    have ha := (h.2 a.1).1
    unfold step at hstep
    split at hstep
    · cases hstep
    obtain ⟨t, e⟩ := a
    cases t with
    | main => exact mainStep_left hstep
    | worker w => exact incrementCounter_left ha hstep
  · obtain ⟨a, s', hn⟩ := exists_step h (by simpa using hnot)
    exact ⟨a, s', trivial, hn⟩

/-! ### The main result -/

theorem live_initial (numThreads increments : Nat) :
    Holds (Counted increments) (Asserted increments) (initial numThreads) := by
  obtain ⟨hm, ha⟩ := holds_initial numThreads increments
  refine ⟨hm, fun t => ⟨ha t, ?_⟩⟩
  cases t with
  | main =>
    exact ⟨⟨fun w hw => absurd hw (Nat.not_lt_zero _), Nat.zero_le _, rfl⟩, by simp [initial],
      fun e => (by cases e)⟩
  | worker w => exact ⟨fun e => (by cases e), fun e => (by cases e), rfl⟩

/-- The steps of the whole program. -/
theorem left_initial (numThreads increments : Nat) :
    ∑ t, left numThreads increments t ((initial numThreads).pc t) =
      2 * numThreads + 5 + numThreads * (6 * increments + 2) := by
  have hmain : left numThreads increments .main ((initial numThreads).pc .main) =
      2 * numThreads + 5 := by
    show (numThreads - 0) + numThreads + 5 = 2 * numThreads + 5
    omega
  have hworkers : ∑ w : Fin numThreads,
      left numThreads increments (.worker w) ((initial numThreads).pc (.worker w)) =
        numThreads * (6 * increments + 2) := by
    show ∑ _w : Fin numThreads, (6 * increments + 2) = _
    simp
  rw [← Equiv.sum_comp (threadEquiv numThreads), Fintype.sum_option]
  exact congrArg₂ (· + ·) hmain hworkers

end EmbeddedLinux.RaceCondition
