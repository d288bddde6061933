import EmbeddedLinux.Lib.CString
import EmbeddedLinux.Lib.Processes

/-!
# A parent that waits for its child

The program forks, the child exits with 10, and the parent prints how the child has ended.

Among any other processes, which may kill either of the two at any time, the parent never waits
without a child, so that the variable it reads the status from is set.  It prints "Child exited with
status 10" when the child has exited, and "Child did not exit normally" only when it was killed; and
no child is left when the parent has ended by itself (`how_child_ended`).
-/

namespace EmbeddedLinux.ForkAndWait

open CString Processes Transition WaitStatus

abbrev Bytes := List UInt8

def failure (strerror : Bytes) : Bytes := text "Fork failed: " ++ strerror ++ text "\n"

def childLine (pid : Int) : Bytes := text "Child process: My PID is " ++ decimal pid ++ text "\n"

/-- The lines of the parent before `wait`. -/
def parentLine (pid : Int) : Bytes := text "Parent process: My PID is " ++ decimal pid ++ text "\n"

def childPidLine (pid : Int) : Bytes :=
  text "Parent process: Child PID is " ++ decimal pid ++ text "\n"

def abnormal : Bytes := text "Parent process: Child did not exit normally.\n"

/-- The line of the parent after `wait`. -/
def report (status : Nat) : Bytes :=
  if wifexited status then
    text "Parent process: Child exited with status " ++ decimal (wexitstatus status) ++ text "\n"
  else abnormal

def child : Code Bytes := .getpid fun pid => .print (childLine pid) <| .exit 10

/-- From `wait(&status)` on; `status` is what the variable holds before. -/
def waiting (status : Nat) : Code Bytes :=
  .wait fun result => .print (report (result.getD status)) <| .exit 0

def parent (status : Nat) (pid : Int) : Code Bytes :=
  .getpid fun self => .print (parentLine self) <| .print (childPidLine pid) <| waiting status

/-- `strerror` is what `perror` adds. -/
def main (status : Nat) (strerror : Bytes) : Code Bytes :=
  .fork fun pid =>
    if pid < 0 then .print (failure strerror) <| .exit 1
    else if pid = 0 then child
    else parent status pid

/-! ### What the parent prints -/

/-- Where nobody may be killed but the parent, or anybody. -/
def Kills {N : Nat} (killing : Prop) (m p : Pid N) (mv : Move Bytes) : Prop :=
  p = m ∨ killing ∨ ∀ sig core, mv ≠ .kill sig core

instance {N : Nat} (killing : Prop) [Decidable killing] (m p : Pid N) :
    (mv : Move Bytes) → Decidable (Kills killing m p mv)
  | .kill sig core => decidable_of_iff (p = m ∨ killing)
      ⟨fun h => h.imp_right Or.inl,
        fun h => h.imp_right (fun h => h.resolve_right (fun h => h sig core rfl))⟩
  | .next _ | .forkFails | .waitFails | .exec _ =>
    .isTrue (Or.inr (Or.inr (fun _ _ e => by cases e)))

/-- How the child has ended, and the line that says so. -/
def Fate (killing : Prop) (status : Nat) (line : Bytes) : Prop :=
  (status = exited 10 ∧ line = text "Parent process: Child exited with status 10\n") ∨
    killing ∧ ∃ sig core, 1 ≤ sig ∧ sig ≤ 64 ∧ status = signaled sig core ∧ line = abnormal

/-- The lines before `wait`. -/
def asked {N : Nat} (m c : Pid N) : List Bytes := [parentLine m.val, childPidLine c.val]

/-- What the parent `m` may have printed and collected. -/
inductive Said {N : Nat} (killing : Prop) (strerror : Bytes) (m : Pid N) :
    List Bytes → List Nat → Prop
  | failure {out : List Bytes} : out <+: [failure strerror] → Said killing strerror m out []
  | asked {c : Pid N} {out : List Bytes} : out <+: asked m c → Said killing strerror m out []
  | told {c : Pid N} {status : Nat} {line : Bytes} {out : List Bytes} : Fate killing status line →
      out <+: asked m c ++ [line] → Said killing strerror m out [status]

/-- Only the low byte of the exit code is shown. -/
theorem report_exited (code : Int) : report (exited code) =
    text "Parent process: Child exited with status " ++ decimal (code % 256) ++ text "\n" := by
  rw [report, wifexited_exited, if_pos rfl, wexitstatus_exited]

/-- The line says how the child has ended. -/
theorem Fate.report_eq {killing : Prop} {status : Nat} {line : Bytes}
    (h : Fate killing status line) : report status = line := by
  obtain ⟨rfl, rfl⟩ | ⟨-, sig, core, h1, h2, rfl, rfl⟩ := h
  · rw [report_exited]
    decide
  · rw [report, not_wifexited_signaled h1 h2]
    rfl

/-! ### The places of the two -/

inductive ChildAt (killing : Prop) : Life Bytes → Prop
  | start : ChildAt killing (.running child)
  | printing (pid : Int) : ChildAt killing (.running (.print (childLine pid) <| .exit 10))
  | exiting : ChildAt killing (.running (.exit 10))
  | ended {status : Nat} {line : Bytes} : Fate killing status line →
      ChildAt killing (.zombie status)

/-- The parent, while it has a child. -/
inductive ParentAt {N : Nat} (init : Nat) (m c : Pid N) : Life Bytes → List Bytes → Prop
  | start : ParentAt init m c (.running (parent init c.val)) []
  | first : ParentAt init m c
      (.running (.print (parentLine m.val) <| .print (childPidLine c.val) <| waiting init)) []
  | second : ParentAt init m c (.running (.print (childPidLine c.val) <| waiting init))
      [parentLine m.val]
  | waiting : ParentAt init m c (.running (waiting init)) (asked m c)

/-- The parent, while it has none. -/
inductive AloneAt {N : Nat} (killing : Prop) (init : Nat) (strerror : Bytes) (m : Pid N) :
    Life Bytes → List Bytes → List Nat → Prop
  | forking : AloneAt killing init strerror m (.running (main init strerror)) [] []
  | failing :
      AloneAt killing init strerror m (.running (.print (failure strerror) <| .exit 1)) [] []
  | failed : AloneAt killing init strerror m (.running (.exit 1)) [failure strerror] []
  | telling {c : Pid N} {status : Nat} {line : Bytes} : Fate killing status line →
      AloneAt killing init strerror m (.running (.print line <| .exit 0)) (asked m c) [status]
  | told {c : Pid N} {status : Nat} {line : Bytes} : Fate killing status line →
      AloneAt killing init strerror m (.running (.exit 0)) (asked m c ++ [line]) [status]
  | ended {c : Pid N} {status : Nat} {line : Bytes} : Fate killing status line →
      AloneAt killing init strerror m (.zombie (exited 0)) (asked m c ++ [line]) [status]
  | stopped {status : Nat} {out : List Bytes} {collected : List Nat} : status ≠ exited 0 →
      Said killing strerror m out collected →
      AloneAt killing init strerror m (.zombie status) out collected

variable {N : Nat} {killing : Prop} {init : Nat} {strerror : Bytes} {m c : Pid N}

theorem ParentAt.said {life : Life Bytes} {out : List Bytes} (h : ParentAt init m c life out) :
    Said killing strerror m out [] := by
  cases h with
  | start | first => exact .asked (c := c) (List.nil_prefix)
  | second => exact .asked (c := c) ⟨[childPidLine c.val], rfl⟩
  | waiting => exact .asked (List.prefix_refl _)

theorem AloneAt.said {life : Life Bytes} {out : List Bytes} {collected : List Nat}
    (h : AloneAt killing init strerror m life out collected) :
    Said killing strerror m out collected := by
  cases h with
  | forking | failing => exact .failure List.nil_prefix
  | failed => exact .failure (List.prefix_refl _)
  | telling hfate => exact .told hfate (List.prefix_append _ _)
  | told hfate | ended hfate => exact .told hfate (List.prefix_refl _)
  | stopped _ hsaid => exact hsaid

/-! ### The contract -/

/-- Both are where they should be. -/
def AtFork (killing : Prop) (init : Nat) (m c : Pid N) (e z : Proc N Bytes) : Prop :=
  ParentAt init m c e.life e.out ∧ e.collected = [] ∧ ChildAt killing z.life

def AtAlone (killing : Prop) (init : Nat) (strerror : Bytes) (m : Pid N) (e : Proc N Bytes) :
    Prop :=
  AloneAt killing init strerror m e.life e.out e.collected

variable {e e' z z' : Proc N Bytes} {mv : Move Bytes}

theorem ParentAt.not_ended (h : ParentAt init m c e.life e.out) : e.ended = false := by
  obtain ⟨parent, env, out, ran, collected, life⟩ := e
  change ParentAt init m c life out at h
  cases h <;> rfl

/-- A parent that is killed has said what it had said. -/
theorem stopped_of_killed (hsaid : Said killing strerror m e.out e.collected)
    (h : Killed e mv e') : AtAlone killing init strerror m e' := by
  obtain ⟨h1, h2⟩ := h
  exact .stopped (exited_ne_signaled h1 h2).symm hsaid

theorem alone_move (h : AtAlone killing init strerror m e)
    (hmove : e.move m true mv = some e') : AtAlone killing init strerror m e' := by
  have hsaid := AloneAt.said h
  obtain ⟨parent, env, out, ran, collected, life⟩ := e
  change AloneAt killing init strerror m life out collected at h
  cases h with
  | forking =>
    obtain rfl | hkill := move_running rfl hmove
    · exact .failing
    · exact stopped_of_killed hsaid hkill
  | failing =>
    obtain rfl | hkill := move_running rfl hmove
    · exact .failed
    · exact stopped_of_killed hsaid hkill
  | failed =>
    obtain rfl | hkill := move_running rfl hmove
    · exact .stopped (by decide) hsaid
    · exact stopped_of_killed hsaid hkill
  | telling hfate =>
    obtain rfl | hkill := move_running rfl hmove
    · exact .told hfate
    · exact stopped_of_killed hsaid hkill
  | told hfate =>
    obtain rfl | hkill := move_running rfl hmove
    · exact .ended hfate
    · exact stopped_of_killed hsaid hkill
  | ended | stopped =>
    rw [move_zombie rfl] at hmove
    cases hmove

/-- The parent has a child, so `wait` does not fail. -/
theorem parent_move (killing : Prop) (strerror : Bytes) (hp : ParentAt init m c e.life e.out)
    (hc : e.collected = []) (hmove : e.move m false mv = some e') :
    (ParentAt init m c e'.life e'.out ∧ e'.collected = []) ∨
      e'.ended = true ∧ AtAlone killing init strerror m e' := by
  have hsaid : Said killing strerror m e.out e.collected := hc ▸ hp.said
  obtain ⟨parent, env, out, ran, collected, life⟩ := e
  change ParentAt init m c life out at hp
  have hkilled : ∀ {x : Proc N Bytes}, Killed ⟨parent, env, out, ran, collected, life⟩ mv x →
      x.ended = true ∧ AtAlone killing init strerror m x :=
    fun h => ⟨h.ended, stopped_of_killed hsaid h⟩
  cases hp with
  | start =>
    obtain rfl | hkill := move_running rfl hmove
    · exact Or.inl ⟨.first, hc⟩
    · exact Or.inr (hkilled hkill)
  | first =>
    obtain rfl | hkill := move_running rfl hmove
    · exact Or.inl ⟨.second, hc⟩
    · exact Or.inr (hkilled hkill)
  | second =>
    obtain rfl | hkill := move_running rfl hmove
    · exact Or.inl ⟨.waiting, hc⟩
    · exact Or.inr (hkilled hkill)
  | waiting =>
    obtain ⟨hchildless, -⟩ | hkill := move_running rfl hmove
    · cases hchildless
    · exact Or.inr (hkilled hkill)

theorem child_own {s : System N Bytes} {a : Action N Bytes} (hz : ChildAt killing z.life)
    (hok : Meets (Kills killing m) m a) (hne : c ≠ m) (hown : Own s c z a z') :
    ChildAt killing z'.life := by
  obtain ⟨parent, env, out, ran, collected, life⟩ := z
  change ChildAt killing life at hz
  cases hown with
  | move hmove =>
    have hkilled : ∀ {x : Proc N Bytes} {mv : Move Bytes}, Kills killing m c mv →
        Killed ⟨parent, env, out, ran, collected, life⟩ mv x → ChildAt killing x.life := by
      rintro x mv hok ⟨h1, h2⟩
      obtain hcm | hk | hno := hok
      · exact absurd hcm hne
      · exact .ended (Or.inr ⟨hk, _, _, h1, h2, rfl, rfl⟩)
      · exact absurd rfl (hno _ _)
    cases hz with
    | start =>
      obtain rfl | hkill := move_running rfl hmove
      · exact .printing _
      · exact hkilled hok hkill
    | printing pid =>
      obtain rfl | hkill := move_running rfl hmove
      · exact .exiting
      · exact hkilled hok hkill
    | exiting =>
      obtain rfl | hkill := move_running rfl hmove
      · exact .ended (Or.inl ⟨rfl, rfl⟩)
      · exact hkilled hok hkill
    | ended =>
      rw [move_zombie rfl] at hmove
      cases hmove
  | fork hl =>
    change life = _ at hl
    subst hl
    cases hz
  | wait hl =>
    change life = _ at hl
    subst hl
    cases hz

theorem contract : Contract (Kills killing m) m (AtAlone killing init strerror m)
    (AtFork killing init m) where
  adopt e q h := h
  adoptPair c e z q h := h
  alone e mv e' h _ hmove := alone_move h hmove
  fork e k c h hl hpos := by
    obtain ⟨parent, env, out, ran, collected, life⟩ := e
    change AloneAt killing init strerror m life out collected at h
    change life = _ at hl
    subst hl
    cases h
    refine ⟨?_, rfl, .start⟩
    show ParentAt init m c (.running (ite _ _ (ite _ _ _))) []
    rw [if_neg (by omega), if_neg (by omega)]
    exact .start
  once c e z k h hl := by
    obtain ⟨hp, -, -⟩ := h
    rw [hl] at hp
    cases hp
  goes c e z mv e' h _ hmove hended := by
    obtain ⟨hp, hc, hz⟩ := h
    obtain ⟨hp', hc'⟩ | ⟨hends, -⟩ := parent_move killing strerror hp hc hmove
    · exact ⟨hp', hc', hz⟩
    · rw [hended] at hends
      cases hends
  ends c e z mv e' h _ hmove hended := by
    obtain ⟨hp, hc, -⟩ := h
    obtain ⟨hp', -⟩ | ⟨-, halone⟩ := parent_move killing strerror hp hc hmove
    · rw [hp'.not_ended] at hended
      cases hended
    · exact halone
  child s a c e z z' hne h hok hown := ⟨h.1, h.2.1, child_own h.2.2 hok hne hown⟩
  wait c e z k status h hl hz := by
    obtain ⟨hp, hc, hchild⟩ := h
    obtain ⟨parent, env, out, ran, collected, life⟩ := e
    change life = _ at hl
    change collected = [] at hc
    change ParentAt init m c life out at hp
    subst hl hc
    rw [hz] at hchild
    cases hp
    cases hchild with
    | ended hfate =>
      show AloneAt killing init strerror m (.running (.print (report status) _)) _ [status]
      rw [hfate.report_eq]
      exact .telling hfate

/-! ### The main result -/

/-- **How the child has ended.**  Among any other processes, until the parent itself is collected:
its `wait` has a child to wait for, and the line after it says that the child has exited with 10,
or, where it may be killed, that a signal has killed it.  A parent that has ended with 0 has printed
all its lines, and one that has ended has no child. -/
theorem how_child_ended {s t : System N Bytes} {e : Proc N Bytes} (hs : Closed s)
    (hm : Alone s m e) (hlife : e.life = .running (main init strerror)) (hout : e.out = [])
    (hcollected : e.collected = [])
    (hr : Reachable step (fun _ a => Meets (Kills killing m) m a) s t) :
    ∃ e', t.proc m = some e' ∧ Said killing strerror m e'.out e'.collected ∧
      (∀ k, e'.life = .running (.wait k) → ∃ c z, t.proc c = some z ∧ z.parent = m) ∧
      (e'.life = .zombie (exited 0) → ∃ c status line, Fate killing status line ∧
        e'.out = asked m c ++ [line] ∧ e'.collected = [status]) ∧
      (e'.ended = true → ∀ c z, t.proc c = some z → z.parent ≠ m) := by
  have hstart : Holds m (AtAlone killing init strerror m) (AtFork killing init m) s := by
    refine ⟨e, Or.inl ⟨hm, ?_⟩⟩
    rw [AtAlone, hlife, hout, hcollected]
    exact .forking
  obtain ⟨e', ⟨hm', hA⟩ | ⟨c, z, hp, hB⟩⟩ := contract.run hs hstart hr
  · refine ⟨e', hm'.record, AloneAt.said hA, fun k hk => ?_, fun hend => ?_, fun _ => hm'.children⟩
    · rw [AtAlone, hk] at hA
      cases hA
    · rw [AtAlone, hend] at hA
      generalize hout : e'.out = out, hcollected : e'.collected = collected at hA
      cases hA with
      | ended hfate => exact ⟨_, _, _, hfate, rfl, rfl⟩
      | stopped hne => exact absurd rfl hne
  · obtain ⟨hat, hnone, -⟩ := hB
    refine ⟨e', hp.record, hnone ▸ hat.said, fun k _ => ⟨c, z, hp.child, hp.parent⟩,
      fun hend => ?_, fun hend => ?_⟩
    · rw [hend] at hat
      cases hat
    · rw [hat.not_ended] at hend
      cases hend

/-- Process 2 forks process 3, which exits. -/
theorem how_child_ended_three : ∃ t e',
    Reachable step (fun _ a => Meets (Kills False (2 : Pid 5)) 2 a)
      (.single 1 (2 : Pid 5) (.fresh 1 (fun _ => none) (main 77 []))) t ∧ t.proc 2 = some e' ∧
    e'.life = .zombie (exited 0) ∧ ∃ c status line, Fate False status line ∧
      e'.out = asked (2 : Pid 5) c ++ [line] ∧ e'.collected = [status] := by
  have hr : Run step (fun _ a => Meets (Kills False 2) 2 a)
      (.single 1 (2 : Pid 5) (.fresh 1 (fun _ => none) (main 77 [])))
      [.fork 2 3, .solo 3 (.next true), .solo 2 (.next true), .solo 2 (.next true),
        .solo 3 (.next true), .solo 3 (.next true), .solo 2 (.next true), .wait 2 3,
        .solo 2 (.next true), .solo 2 (.next true)] _ := exec_guarded rfl
  obtain ⟨e', he', -, -, hends, -⟩ := how_child_ended (closed_single (by decide))
    (alone_single (by decide)) rfl rfl rfl ⟨_, hr⟩
  cases he'
  exact ⟨_, _, ⟨_, hr⟩, rfl, rfl, hends rfl⟩

end EmbeddedLinux.ForkAndWait
