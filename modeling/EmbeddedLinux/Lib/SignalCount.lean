import EmbeddedLinux.Lib.Signals
import Mathlib.Data.List.Range

/-!
# A handler that counts

The process counts a signal, prints a line with the count, and exits with a last line when the count
has reached a limit (`CountingProgram`).  It installs its handler as the first thing that it does.

`Counted` is its invariant: the count and the output go with the signals that were taken, the
process exits at the limit and nowhere else, and it is killed only by a signal that comes before the
handler is installed.
-/

namespace Signals

/-- Where the handler is. -/
inductive CountPc
  | increment
  | print
  | test
  | exiting
  deriving DecidableEq

/-- The steps that it has left. -/
def CountPc.left : CountPc → Nat
  | increment => 4
  | print => 3
  | test => 2
  | exiting => 1

structure CountingProgram (O : Type*) where
  limit : Nat
  line : Int → List O
  farewell : List O
  limit_pos : 0 < limit

/-- A process that counts its signals. -/
structure Counting (O : Type*) where
  proc : Process CountPc
  count : Int
  out : List O

namespace Counting

variable {O : Type*}

def fresh (O : Type*) : Counting O := { proc := .fresh CountPc, count := 0, out := [] }

/-- A step of the handler. -/
def handle (k : CountingProgram O) (s : Counting O) : CountPc → Counting O
  | .increment => { s with count := s.count + 1, proc := s.proc.goto (some .print) }
  | .print => { s with out := s.out ++ k.line s.count, proc := s.proc.goto (some .test) }
  | .test =>
    if s.count ≥ k.limit then { s with proc := s.proc.goto (some .exiting) }
    else { s with proc := s.proc.goto none }
  | .exiting => { s with out := s.out ++ k.farewell, proc := s.proc.exit 0 }

def raise (s : Counting O) : Counting O := { s with proc := s.proc.raise }

def deliver (s : Counting O) : Option (Counting O) :=
  (s.proc.deliver .increment).map (fun p => { s with proc := p })

/-- The handler is installed; after it the process only waits. -/
def main (s : Counting O) : Option (Counting O) :=
  if s.proc.ended.isNone ∧ s.proc.installed = false then some { s with proc := s.proc.install }
  else none

def handler (k : CountingProgram O) (s : Counting O) : Option (Counting O) :=
  s.proc.handler.map (s.handle k)

end Counting

/-- The lines for the first `n` signals. -/
def CountingProgram.lines {O : Type*} (k : CountingProgram O) (n : Nat) : List O :=
  (List.range n).flatMap (fun i => k.line (i + 1 : Nat))

theorem CountingProgram.lines_succ {O : Type*} (k : CountingProgram O) (n : Nat) :
    k.lines (n + 1) = k.lines n ++ k.line (n + 1 : Nat) := by
  rw [lines, List.range_succ, List.flatMap_append, List.flatMap_singleton]
  rfl

/-! ### The invariant -/

namespace Counting

variable {O : Type*} {k : CountingProgram O} {s t : Counting O}

/-- `count` signals have been counted, and `printed` of them have been printed. -/
def Shows (k : CountingProgram O) (s : Counting O) (count printed : Nat) : Prop :=
  s.count = count ∧ s.out = k.lines printed

/-- What has been done of the signals that were taken. -/
def Done (k : CountingProgram O) (s : Counting O) : Prop :=
  match s.proc.handler with
  | none => s.proc.taken < k.limit ∧ Shows k s s.proc.taken s.proc.taken
  | some .increment => ∃ n < k.limit, s.proc.taken = n + 1 ∧ Shows k s n n
  | some .print => ∃ n < k.limit, s.proc.taken = n + 1 ∧ Shows k s (n + 1) n
  | some .test => ∃ n < k.limit, s.proc.taken = n + 1 ∧ Shows k s (n + 1) (n + 1)
  | some .exiting => s.proc.taken = k.limit ∧ Shows k s k.limit k.limit

/-- The process has exited at the limit. -/
structure Exited (k : CountingProgram O) (s : Counting O) (status : Int) : Prop where
  status_eq : status = 0
  handler : s.proc.handler = none
  taken : s.proc.taken = k.limit
  count : s.count = k.limit
  out : s.out = k.lines k.limit ++ k.farewell

structure Counted (k : CountingProgram O) (s : Counting O) : Prop where
  balanced : s.proc.Balanced
  installed : s.proc.installed = false → s.proc.taken = 0
  running : s.proc.handler ≠ none → s.proc.ended = none
  killed : s.proc.ended = some .killed → s.proc.installed = false
  done : (∀ status, s.proc.ended ≠ some (.exited status)) → Done k s
  exited : ∀ status, s.proc.ended = some (.exited status) → Exited k s status

theorem Counted.fresh (k : CountingProgram O) : Counted k (fresh O) :=
  ⟨Process.balanced_fresh, fun _ => rfl, fun h => absurd rfl h, fun h => (by cases h),
    fun _ => ⟨k.limit_pos, rfl, rfl⟩, fun _ h => (by cases h)⟩

theorem Counted.raise (h : Counted k s) : Counted k s.raise := by
  unfold Counting.raise
  refine ⟨h.balanced.raise, ?_, ?_, ?_, fun e => ?_, fun status e => ?_⟩
  · simpa using h.installed
  · simpa using h.running
  · simpa using h.killed
  · have hd := h.done (by simpa using e)
    unfold Done Shows at hd ⊢
    simpa using hd
  · obtain ⟨h1, h2, h3, h4, h5⟩ := h.exited status (by simpa using e)
    exact ⟨h1, by simpa using h2, by simpa using h3, h4, h5⟩

theorem Counted.deliver (h : Counted k s) (hn : s.deliver = some t) : Counted k t := by
  obtain ⟨q, hq, rfl⟩ := Option.map_eq_some_iff.1 hn
  have hbalanced := h.balanced.deliver h.installed hq
  obtain ⟨hnone, -, hidle, rfl⟩ := Process.deliver_eq_some.1 hq
  have hdone := h.done (by rw [hnone]; simp)
  rw [Done, hidle] at hdone
  obtain ⟨hlt, hshows⟩ := hdone
  by_cases hin : s.proc.installed = true
  · rw [if_pos hin] at hbalanced ⊢
    refine ⟨hbalanced, fun e => ?_, fun _ => hnone, fun e => ?_, fun _ => ?_, fun status e => ?_⟩
    · cases hin.symm.trans e
    · cases hnone.symm.trans e
    · exact ⟨s.proc.taken, hlt, rfl, hshows⟩
    · cases hnone.symm.trans e
  · rw [if_neg hin] at hbalanced ⊢
    refine ⟨hbalanced, h.installed, fun e => absurd hidle e, fun _ => by simpa using hin,
      fun _ => ?_, fun status e => (by cases e)⟩
    show Done k _
    unfold Done Shows
    simp only [hidle]
    exact ⟨hlt, hshows⟩

theorem Counted.main (h : Counted k s) (hn : s.main = some t) : Counted k t := by
  obtain ⟨⟨hnone, hin⟩, ht⟩ := Option.ite_none_right_eq_some.1 hn
  cases ht
  rw [Option.isNone_iff_eq_none] at hnone
  refine ⟨h.balanced.install, fun e => (by cases e), h.running, fun e => ?_, h.done,
    fun status e => ?_⟩
  · cases hnone.symm.trans e
  · cases hnone.symm.trans e

/-- A step of the handler. -/
theorem Counted.handle (h : Counted k s) {pc : CountPc} (hpc : s.proc.handler = some pc) :
    Counted k (s.handle k pc) := by
  have hnone := h.running (by rw [hpc]; simp)
  have hdone := h.done (by rw [hnone]; simp)
  -- the handler goes on, with the counts that go with its new place
  have hgoto : ∀ (u : Counting O) (pc' : Option CountPc), u.proc = s.proc.goto pc' → Done k u →
      Counted k u := by
    intro u pc' hu hd
    refine ⟨?_, ?_, fun _ => ?_, fun e => ?_, fun _ => hd, fun status e => ?_⟩
    · rw [hu]
      exact h.balanced.goto pc'
    · rw [hu]
      exact h.installed
    · rw [hu]
      exact hnone
    · rw [hu] at e
      cases hnone.symm.trans e
    · rw [hu] at e
      cases hnone.symm.trans e
  rw [Done, hpc] at hdone
  cases pc with
  | increment =>
    obtain ⟨n, hn, htaken, hcount, hout⟩ := hdone
    apply hgoto _ (some .print) rfl
    refine ⟨n, hn, htaken, ?_, hout⟩
    show s.count + 1 = (n + 1 : Nat)
    rw [hcount]
    rfl
  | print =>
    obtain ⟨n, hn, htaken, hcount, hout⟩ := hdone
    apply hgoto _ (some .test) rfl
    refine ⟨n, hn, htaken, hcount, ?_⟩
    show s.out ++ k.line s.count = _
    rw [hout, hcount, k.lines_succ]
  | test =>
    obtain ⟨n, hn, htaken, hcount, hout⟩ := hdone
    show Counted k (ite _ _ _)
    split
    · rename_i hge
      have hlast : n + 1 = k.limit := by omega
      apply hgoto _ (some .exiting) rfl
      refine ⟨htaken.trans hlast, ?_, ?_⟩
      · rw [← hlast]
        exact hcount
      · rw [← hlast]
        exact hout
    · rename_i hlt
      apply hgoto _ none rfl
      refine ⟨?_, ?_, ?_⟩
      · show s.proc.taken < k.limit
        omega
      · show s.count = (s.proc.taken : Nat)
        rw [htaken]
        exact hcount
      · show s.out = k.lines s.proc.taken
        rw [htaken]
        exact hout
  | exiting =>
    obtain ⟨htaken, hcount, hout⟩ := hdone
    refine ⟨h.balanced.exit hnone 0, h.installed, fun e => absurd rfl e, fun e => (by cases e),
      fun e => absurd rfl (e 0), fun status e => ?_⟩
    cases e
    refine ⟨rfl, rfl, htaken, hcount, ?_⟩
    show s.out ++ k.farewell = _
    rw [hout]

theorem Counted.handler (h : Counted k s) (hn : s.handler k = some t) : Counted k t := by
  obtain ⟨pc, hpc, rfl⟩ := Option.map_eq_some_iff.1 hn
  exact h.handle hpc

/-! ### The steps of the process itself -/

/-- A step of the process itself. -/
inductive Own (k : CountingProgram O) (s t : Counting O) : Prop
  | deliver (h : s.deliver = some t)
  | main (h : s.main = some t)
  | handler (h : s.handler k = some t)

theorem Counted.own (h : Counted k s) (hn : Own k s t) : Counted k t := by
  cases hn with
  | deliver hn => exact h.deliver hn
  | main hn => exact h.main hn
  | handler hn => exact h.handler hn

/-- It takes them only as long as it lives. -/
theorem Counted.ended_own (h : Counted k s) (hn : Own k s t) : s.proc.ended = none := by
  cases hn with
  | deliver hn =>
    obtain ⟨q, hq, -⟩ := Option.map_eq_some_iff.1 hn
    exact (Process.deliver_eq_some.1 hq).1
  | main hn =>
    obtain ⟨⟨hnone, -⟩, -⟩ := Option.ite_none_right_eq_some.1 hn
    exact Option.isNone_iff_eq_none.1 hnone
  | handler hn =>
    obtain ⟨pc, hpc, -⟩ := Option.map_eq_some_iff.1 hn
    exact h.running (by rw [hpc]; simp)

theorem Own.sent (hn : Own k s t) : t.proc.sent = s.proc.sent := by
  cases hn with
  | deliver hn =>
    obtain ⟨q, hq, rfl⟩ := Option.map_eq_some_iff.1 hn
    obtain ⟨-, -, -, rfl⟩ := Process.deliver_eq_some.1 hq
    show (ite _ _ _ : Process CountPc).sent = _
    split <;> rfl
  | main hn =>
    obtain ⟨-, ht⟩ := Option.ite_none_right_eq_some.1 hn
    cases ht
    rfl
  | handler hn =>
    obtain ⟨pc, -, rfl⟩ := Option.map_eq_some_iff.1 hn
    cases pc with
    | test =>
      show (ite _ _ _ : Counting O).proc.sent = _
      split <;> rfl
    | increment | print | exiting => rfl

/-- The steps that the process has left, when nothing more is sent to it. -/
def left (s : Counting O) : Nat :=
  if s.proc.ended.isSome then 0
  else (!s.proc.installed).toNat + 5 * s.proc.pending.toNat +
    s.proc.handler.elim 0 CountPc.left

theorem left_of_live (h : s.proc.ended = none) : s.left =
    (!s.proc.installed).toNat + 5 * s.proc.pending.toNat +
      s.proc.handler.elim 0 CountPc.left := by
  rw [left, h]
  rfl

theorem left_raise_le : s.raise.left ≤ s.left + 5 := by
  by_cases hended : s.proc.ended = none
  · have hraised : s.raise.proc.ended = none := (Process.raise_ended s.proc).trans hended
    rw [left_of_live hended, left_of_live hraised]
    simp only [raise, Process.raise_installed, Process.raise_handler]
    have hle := Bool.toNat_le s.proc.raise.pending
    omega
  · rw [raise, Process.raise_of_ended hended]
    exact Nat.le_add_right _ 5

theorem Counted.left_own (h : Counted k s) (hn : Own k s t) : t.left < s.left := by
  have hlive := h.ended_own hn
  cases hn with
  | deliver hn =>
    obtain ⟨q, hq, rfl⟩ := Option.map_eq_some_iff.1 hn
    obtain ⟨-, hpending, hidle, rfl⟩ := Process.deliver_eq_some.1 hq
    rw [left_of_live hlive, hpending, hidle]
    by_cases hin : s.proc.installed = true
    · rw [if_pos hin]
      refine lt_of_eq_of_lt (left_of_live hlive) ?_
      rw [hin]
      show 4 < 5
      decide
    · rw [if_neg hin]
      exact Nat.add_pos_left (Nat.add_pos_right _ (by decide)) _
  | main hn =>
    obtain ⟨⟨-, hin⟩, ht⟩ := Option.ite_none_right_eq_some.1 hn
    cases ht
    rw [left_of_live hlive, hin]
    refine lt_of_eq_of_lt (left_of_live hlive) ?_
    exact Nat.add_lt_add_right (Nat.add_lt_add_right Nat.zero_lt_one _) _
  | handler hn =>
    obtain ⟨pc, hpc, rfl⟩ := Option.map_eq_some_iff.1 hn
    -- the handler goes on, and the rest of the process stays as it is
    have hgoto : ∀ (u : Counting O) (pc' : Option CountPc), u.proc = s.proc.goto pc' →
        pc'.elim 0 CountPc.left < pc.left → u.left < s.left := by
      intro u pc' hu hlt
      rw [left_of_live hlive, left_of_live (by rw [hu]; exact hlive), hu, hpc]
      exact Nat.add_lt_add_left hlt _
    cases pc with
    | increment => exact hgoto _ (some .print) rfl (by decide)
    | print => exact hgoto _ (some .test) rfl (by decide)
    | test =>
      show left (ite _ _ _) < _
      split
      · exact hgoto _ (some .exiting) rfl (by decide)
      · exact hgoto _ none rfl (by decide)
    | exiting =>
      rw [left_of_live hlive, hpc]
      exact Nat.succ_pos _

/-- A process that lives and has nothing to do has its handler, and is at rest. -/
theorem exists_own (hlive : s.proc.ended = none)
    (hdo : ¬ (s.proc.installed = true ∧ s.proc.Quiet)) : ∃ t, Own k s t := by
  by_cases hin : s.proc.installed = true
  · cases hpc : s.proc.handler with
    | some pc =>
      refine ⟨s.handle k pc, .handler ?_⟩
      rw [handler, hpc]
      rfl
    | none =>
      have hpending : s.proc.pending = true := by
        by_contra hnot
        exact hdo ⟨hin, by simpa using hnot, hpc⟩
      obtain ⟨q, hq⟩ : ∃ q, s.proc.deliver .increment = some q :=
        ⟨_, Process.deliver_eq_some.2 ⟨hlive, hpending, hpc, rfl⟩⟩
      refine ⟨{ s with proc := q }, .deliver ?_⟩
      rw [deliver, hq]
      rfl
  · refine ⟨{ s with proc := s.proc.install }, .main ?_⟩
    rw [main, if_pos ⟨Option.isNone_iff_eq_none.2 hlive, by simpa using hin⟩]

/-! ### What it says about a process that is at rest -/

/-- What has been counted of the signals of a process that has not exited. -/
theorem Counted.shows (h : Counted k s) (hq : s.proc.Quiet)
    (hlive : ∀ status, s.proc.ended ≠ some (.exited status)) :
    s.proc.taken < k.limit ∧ Shows k s s.proc.taken s.proc.taken := by
  have hdone := h.done hlive
  rw [Done, hq.2] at hdone
  exact hdone

/-- A process that is killed has not printed anything. -/
theorem Counted.out_of_killed (h : Counted k s) (hk : s.proc.ended = some .killed) :
    s.proc.installed = false ∧ s.out = [] := by
  obtain ⟨hpending, h0⟩ := h.balanced.killed hk
  have hidle : s.proc.handler = none := by
    by_contra hrun
    cases hk.symm.trans (h.running hrun)
  obtain ⟨-, -, hout⟩ := h.shows ⟨hpending, hidle⟩ (fun status e => by cases hk.symm.trans e)
  refine ⟨h.killed hk, ?_⟩
  rw [hout, h0]
  rfl

/-- Only one signal is sent to it before, but for those that are merged. -/
theorem Counted.sent_of_killed (h : Counted k s) (hk : s.proc.ended = some .killed) :
    s.proc.sent = s.proc.merged + 1 := by
  have hsum := h.balanced.sum
  obtain ⟨hpending, h0⟩ := h.balanced.killed hk
  rw [if_pos hk, hpending, h0] at hsum
  exact hsum

/-- **A process exits exactly when enough of its signals have not been merged.** -/
theorem Counted.exited_iff (h : Counted k s) (hq : s.proc.Quiet)
    (hlive : s.proc.ended ≠ some .killed) :
    s.proc.ended = some (.exited 0) ↔ s.proc.sent = s.proc.merged + k.limit := by
  constructor
  · intro he
    rw [h.balanced.quiet hq hlive, (h.exited 0 he).taken]
  · intro hsent
    by_contra hne
    have hsum := h.balanced.quiet hq hlive
    obtain ⟨hlt, -⟩ := h.shows hq (fun status he => by
      rw [(h.exited status he).status_eq] at he
      exact hne he)
    omega

/-- **What a process that goes on has printed**: one line for each signal that was not merged. -/
theorem Counted.quiet (h : Counted k s) (hq : s.proc.Quiet) (hnone : s.proc.ended = none) :
    s.count = (s.proc.sent - s.proc.merged : Nat) ∧
      s.out = k.lines (s.proc.sent - s.proc.merged) := by
  obtain ⟨-, hcount, hout⟩ := h.shows hq (fun status => by rw [hnone]; simp)
  have hsum := h.balanced.quiet hq (by rw [hnone]; simp)
  rw [show s.proc.sent - s.proc.merged = s.proc.taken by omega]
  exact ⟨hcount, hout⟩

end Counting

end Signals
