import EmbeddedLinux.Lib.CString
import EmbeddedLinux.Lib.Processes

/-!
# A command from the environment

The parent puts `MY_COMMAND` into its environment and forks; the child reads it there and starts it;
the parent waits and prints.  `setenv` may fail, which is not looked at, and then the variable is
what it was before.

Among any other processes, the first file that the child starts is `ls`, whatever the environment
was before, unless `setenv` has failed.  Then it is the old value, and the child finds no variable
when there was none.  When the parent prints that the child has finished, it has collected it
(`child_runs_command`).
-/

namespace EmbeddedLinux.Exec

open CString Processes Transition WaitStatus

abbrev Bytes := List UInt8

def myCommand : Bytes := text "MY_COMMAND"

def forkFailed (strerror : Bytes) : Bytes := text "Fork failed: " ++ strerror ++ text "\n"

def notFound : Bytes := text "Environment variable MY_COMMAND not found\n"

def execFailed (strerror : Bytes) : Bytes := text "exec failed: " ++ strerror ++ text "\n"

def finished : Bytes := text "Parent process: Child has finished.\n"

def child (strerror : Bytes) : Code Bytes :=
  .getenv myCommand fun
    | none => .print notFound <| .exit 1
    | some command => .exec command <| .print (execFailed strerror) <| .exit 1

def parent : Code Bytes := .wait fun _ => .print finished <| .exit 0

/-- From `fork` on; `strerror` is what `perror` adds. -/
def forking (strerror : Bytes) : Code Bytes :=
  .fork fun pid =>
    if pid < 0 then .print (forkFailed strerror) <| .exit 1
    else if pid = 0 then child strerror
    else parent

def main (strerror : Bytes) : Code Bytes := .setenv myCommand (text "ls") <| forking strerror

/-! ### The places of the two -/

/-- Where `setenv` does not fail, or may fail. -/
def Fails {N : Nat} (failing : Prop) (m p : Pid N) (mv : Move Bytes) : Prop :=
  p = m → mv = .next false → failing

instance {N : Nat} (failing : Prop) [Decidable failing] (m p : Pid N) :
    (mv : Move Bytes) → Decidable (Fails failing m p mv)
  | .next false => decidable_of_iff (p = m → failing) ⟨fun h hp _ => h hp, fun h hp => h hp rfl⟩
  | .next true | .forkFails | .waitFails | .exec _ | .kill _ _ => .isTrue (fun _ h => by cases h)

/-- What the child may find; `old` is what there was before. -/
def Value (failing : Prop) (old value : Option Bytes) : Prop :=
  value = some (text "ls") ∨ failing ∧ value = old

/-- What a child that has started nothing has printed. -/
def Told (V : Option Bytes → Prop) (strerror : Bytes) (out : List Bytes) : Prop :=
  out = [] ∨ out = [notFound] ∧ V none ∨ out = [execFailed strerror]

/-- The child, with what it has printed and started. -/
inductive ChildAt (V : Option Bytes → Prop) (strerror : Bytes) :
    (Bytes → Option Bytes) → Life Bytes → List Bytes → List Bytes → Prop
  | asking {env : Bytes → Option Bytes} : V (env myCommand) →
      ChildAt V strerror env (.running (child strerror)) [] []
  | missing {env : Bytes → Option Bytes} : V none →
      ChildAt V strerror env (.running (.print notFound <| .exit 1)) [] []
  | missed {env : Bytes → Option Bytes} : V none →
      ChildAt V strerror env (.running (.exit 1)) [notFound] []
  | starting {env : Bytes → Option Bytes} {file : Bytes} : V (some file) →
      ChildAt V strerror env
        (.running (.exec file <| .print (execFailed strerror) <| .exit 1)) [] []
  | failing {env : Bytes → Option Bytes} :
      ChildAt V strerror env (.running (.print (execFailed strerror) <| .exit 1)) [] []
  | failed {env : Bytes → Option Bytes} :
      ChildAt V strerror env (.running (.exit 1)) [execFailed strerror] []
  | ended {env : Bytes → Option Bytes} (status : Nat) {out : List Bytes} : Told V strerror out →
      ChildAt V strerror env (.zombie status) out []
  /-- From here on it is another program. -/
  | started {env : Bytes → Option Bytes} {life : Life Bytes} {out : List Bytes} {file : Bytes}
      {more : List Bytes} : V (some file) → ChildAt V strerror env life out (file :: more)

/-- What a parent without a child has printed and collected. -/
def Said (strerror : Bytes) (out : List Bytes) (collected : List Nat) : Prop :=
  out = [] ∨ out = [forkFailed strerror] ∨ out = [finished] ∧ collected.length = 1

/-- The parent, while it has no child, with its variable, and with what it has printed and
collected. -/
inductive AloneAt (V : Option Bytes → Prop) (strerror : Bytes) (old : Option Bytes) :
    Life Bytes → Option Bytes → List Bytes → List Nat → Prop
  | start : AloneAt V strerror old (.running (main strerror)) old [] []
  | forking {value : Option Bytes} : V value →
      AloneAt V strerror old (.running (forking strerror)) value [] []
  | failing (value : Option Bytes) :
      AloneAt V strerror old (.running (.print (forkFailed strerror) <| .exit 1)) value [] []
  | failed (value : Option Bytes) :
      AloneAt V strerror old (.running (.exit 1)) value [forkFailed strerror] []
  | telling (value : Option Bytes) (status : Nat) :
      AloneAt V strerror old (.running (.print finished <| .exit 0)) value [] [status]
  | told (value : Option Bytes) (status : Nat) :
      AloneAt V strerror old (.running (.exit 0)) value [finished] [status]
  | ended (value : Option Bytes) (status : Nat) :
      AloneAt V strerror old (.zombie (exited 0)) value [finished] [status]
  | stopped {status : Nat} {value : Option Bytes} {out : List Bytes} {collected : List Nat} :
      status ≠ exited 0 → Said strerror out collected →
      AloneAt V strerror old (.zombie status) value out collected

variable {N : Nat} {V : Option Bytes → Prop} {strerror : Bytes} {old : Option Bytes}

theorem AloneAt.said {life : Life Bytes} {value : Option Bytes} {out : List Bytes}
    {collected : List Nat} (h : AloneAt V strerror old life value out collected) :
    Said strerror out collected := by
  cases h with
  | start | forking | failing | telling => exact Or.inl rfl
  | failed => exact Or.inr (Or.inl rfl)
  | told | ended => exact Or.inr (Or.inr ⟨rfl, rfl⟩)
  | stopped _ hsaid => exact hsaid

theorem ChildAt.told {env : Bytes → Option Bytes} {life : Life Bytes} {out : List Bytes}
    (h : ChildAt V strerror env life out []) : Told V strerror out := by
  cases h with
  | asking | missing | starting | failing => exact Or.inl rfl
  | missed hv => exact Or.inr (Or.inl ⟨rfl, hv⟩)
  | failed => exact Or.inr (Or.inr rfl)
  | ended _ htold => exact htold

theorem ChildAt.started_value {env : Bytes → Option Bytes} {life : Life Bytes} {out : List Bytes}
    {file : Bytes} {more : List Bytes} (h : ChildAt V strerror env life out (file :: more)) :
    V (some file) := by
  cases h with
  | started hv => exact hv

/-! ### The contract -/

def AtAlone (V : Option Bytes → Prop) (strerror : Bytes) (old : Option Bytes) (e : Proc N Bytes) :
    Prop :=
  AloneAt V strerror old e.life (e.env myCommand) e.out e.collected

def AtFork (V : Option Bytes → Prop) (strerror : Bytes) (e z : Proc N Bytes) : Prop :=
  (e.life = .running parent ∧ e.out = [] ∧ e.collected = []) ∧
    ChildAt V strerror z.env z.life z.out z.ran

variable {m c : Pid N} {e e' z z' : Proc N Bytes} {mv : Move Bytes} {failing : Prop}
  {s t : System N Bytes} {a : Action N Bytes} {b : Bool}

theorem stopped_of_killed (hsaid : Said strerror e.out e.collected) (h : Killed e mv e') :
    AtAlone V strerror old e' := by
  obtain ⟨h1, h2⟩ := h
  exact .stopped (exited_ne_signaled h1 h2).symm hsaid

theorem alone_move (h : AtAlone (Value failing old) strerror old e) (hok : Fails failing m m mv)
    (hmove : e.move m true mv = some e') : AtAlone (Value failing old) strerror old e' := by
  have hsaid := AloneAt.said h
  obtain ⟨parent, env, out, ran, collected, life⟩ := e
  change AloneAt (Value failing old) strerror old life (env myCommand) out collected at h
  generalize hvalue : env myCommand = value at h
  cases h with
  | start =>
    obtain ⟨success, rfl, rfl⟩ | hkill := move_running rfl hmove
    · cases success with
      | true =>
        have hset : Function.update env myCommand (some (text "ls")) myCommand =
            some (text "ls") := Function.update_self ..
        exact .forking (Or.inl hset)
      | false => exact .forking (Or.inr ⟨hok rfl rfl, hvalue⟩)
    · exact stopped_of_killed hsaid hkill
  | forking hv =>
    obtain rfl | hkill := move_running rfl hmove
    · exact .failing _
    · exact stopped_of_killed hsaid hkill
  | failing =>
    obtain rfl | hkill := move_running rfl hmove
    · exact .failed _
    · exact stopped_of_killed hsaid hkill
  | failed =>
    obtain rfl | hkill := move_running rfl hmove
    · exact .stopped (by decide) hsaid
    · exact stopped_of_killed hsaid hkill
  | telling =>
    obtain rfl | hkill := move_running rfl hmove
    · exact .told _ _
    · exact stopped_of_killed hsaid hkill
  | told =>
    obtain rfl | hkill := move_running rfl hmove
    · exact .ended _ _
    · exact stopped_of_killed hsaid hkill
  | ended | stopped =>
    rw [move_zombie rfl] at hmove
    cases hmove

/-- A parent with a child waits, unless it is killed. -/
theorem parent_move (hl : e.life = .running parent) (hmove : e.move m false mv = some e') :
    Killed e mv e' := by
  obtain ⟨hchildless, -⟩ | hkill := move_running hl hmove
  · cases hchildless
  · exact hkill

theorem child_move (h : ChildAt V strerror z.env z.life z.out z.ran)
    (hmove : z.move c b mv = some z') : ChildAt V strerror z'.env z'.life z'.out z'.ran := by
  have hprefix := move_ran hmove
  obtain ⟨parent, env, out, ran, collected, life⟩ := z
  change ChildAt V strerror env life out ran at h
  have hkilled : ∀ {x : Proc N Bytes}, ran = [] →
      Killed ⟨parent, env, out, ran, collected, life⟩ mv x →
      ChildAt V strerror x.env x.life x.out x.ran := by
    rintro x rfl ⟨-, -⟩
    exact .ended _ h.told
  cases h with
  | asking hv =>
    obtain rfl | hkill := move_running rfl hmove
    · show ChildAt V strerror env (.running (match env myCommand with
        | none => _
        | some command => _)) [] []
      cases hcommand : env myCommand with
      | none => exact .missing (hcommand ▸ hv)
      | some command => exact .starting (hcommand ▸ hv)
    · exact hkilled rfl hkill
  | missing hv =>
    obtain rfl | hkill := move_running rfl hmove
    · exact .missed hv
    · exact hkilled rfl hkill
  | missed hv =>
    obtain rfl | hkill := move_running rfl hmove
    · exact .ended _ (Or.inr (Or.inl ⟨rfl, hv⟩))
    · exact hkilled rfl hkill
  | starting hv =>
    obtain (rfl | ⟨image, rfl⟩) | hkill := move_running rfl hmove
    · exact .failing
    · exact .started hv
    · exact hkilled rfl hkill
  | failing =>
    obtain rfl | hkill := move_running rfl hmove
    · exact .failed
    · exact hkilled rfl hkill
  | failed =>
    obtain rfl | hkill := move_running rfl hmove
    · exact .ended _ (Or.inr (Or.inr rfl))
    · exact hkilled rfl hkill
  | ended =>
    rw [move_zombie rfl] at hmove
    cases hmove
  | started hv =>
    obtain ⟨more, hmore⟩ := hprefix
    rw [← hmore]
    exact .started hv

theorem child_own (h : ChildAt V strerror z.env z.life z.out z.ran) (hown : Own s c z a z') :
    ChildAt V strerror z'.env z'.life z'.out z'.ran := by
  cases hown with
  | move hmove => exact child_move h hmove
  | fork hl | wait hl =>
    rw [hl] at h
    cases hran : z.ran with
    | nil =>
      rw [hran] at h
      cases h
    | cons file more =>
      rw [hran] at h
      have hv := h.started_value
      show ChildAt V strerror z.env _ z.out z.ran
      rw [hran]
      exact .started hv

theorem contract : Contract (Fails failing m) m (AtAlone (Value failing old) strerror old)
    (fun _ => AtFork (Value failing old) strerror) where
  adopt e q h := h
  adoptPair c e z q h := h
  alone e mv e' h hok hmove := alone_move h hok hmove
  fork e k c h hl hpos := by
    obtain ⟨par, env, out, ran, collected, life⟩ := e
    change AloneAt (Value failing old) strerror old life (env myCommand) out collected at h
    change life = _ at hl
    subst hl
    generalize hvalue : env myCommand = value at h
    cases h with
    | forking hv =>
      rw [← hvalue] at hv
      refine ⟨⟨?_, rfl, rfl⟩, .asking hv⟩
      show Life.running (ite _ _ (ite _ _ _)) = _
      rw [if_neg (by omega), if_neg (by omega)]
  once c e z k h hl := by
    cases h.1.1.symm.trans hl
  goes c e z mv e' h _ hmove hended := by
    cases (parent_move h.1.1 hmove).ended.symm.trans hended
  ends c e z mv e' h _ hmove _ :=
    stopped_of_killed (Or.inl h.1.2.1) (parent_move h.1.1 hmove)
  child s a c e z z' _ h _ hown := ⟨h.1, child_own h.2 hown⟩
  wait c e z k status h hl _ := by
    obtain ⟨⟨hl', hout, hcollected⟩, -⟩ := h
    cases hl.symm.trans hl'
    show AloneAt _ _ _ _ (e.env myCommand) e.out (e.collected ++ [status])
    rw [hout, hcollected]
    exact .telling _ _

/-! ### The main result -/

theorem finished_ne : finished ≠ forkFailed strerror := by
  intro h
  cases congrArg List.head? h

/-- **Which command the child runs.**  Among any other processes, until the parent itself is
collected: its `wait` has a child to wait for, and when it has printed that the child has finished
it has collected it.  The first file that the child starts is `ls`, or, where `setenv` has failed,
the old value of the variable; and only where there was none the child says that it is missing. -/
theorem child_runs_command (hs : Closed s) (hm : Alone s m e)
    (hlife : e.life = .running (main strerror)) (hout : e.out = []) (hcollected : e.collected = [])
    (hr : Reachable step (fun _ a => Meets (Fails failing m) m a) s t) :
    ∃ e', t.proc m = some e' ∧
      (∀ k, e'.life = .running (.wait k) → ∃ c z, t.proc c = some z ∧ z.parent = m) ∧
      (finished ∈ e'.out → e'.collected.length = 1 ∧ ∀ c z, t.proc c = some z → z.parent ≠ m) ∧
      (e'.life = .zombie (exited 0) → e'.out = [finished]) ∧
      ∀ c z, t.proc c = some z → z.parent = m →
        (∀ file more, z.ran = file :: more → Value failing (e.env myCommand) (some file)) ∧
        (z.ran = [] → Told (Value failing (e.env myCommand)) strerror z.out) := by
  have hstart : AtAlone (Value failing (e.env myCommand)) strerror (e.env myCommand) e := by
    rw [AtAlone, hlife, hout, hcollected]
    exact .start
  obtain ⟨e', ⟨hm', hA⟩ | ⟨c, z, hp, ⟨hl, hnone, -⟩, hz⟩⟩ :=
    contract.run hs ⟨e, Or.inl ⟨hm, hstart⟩⟩ hr
  · refine ⟨e', hm'.record, fun k hk => ?_, fun hmem => ⟨?_, hm'.children⟩, fun hend => ?_,
      fun c z hc hparent => (hm'.children c z hc hparent).elim⟩
    · rw [AtAlone, hk] at hA
      generalize e'.env myCommand = value, e'.out = out, e'.collected = collected at hA
      cases hA
    · obtain h | h | ⟨-, h⟩ := AloneAt.said hA
      · rw [h] at hmem
        cases hmem
      · rw [h, List.mem_singleton] at hmem
        exact absurd hmem finished_ne
      · exact h
    · rw [AtAlone, hend] at hA
      generalize e'.env myCommand = value, hout : e'.out = out, e'.collected = collected at hA
      cases hA with
      | ended => rfl
      | stopped hne => exact absurd rfl hne
  · refine ⟨e', hp.record, fun k _ => ⟨c, z, hp.child, hp.parent⟩, fun hmem => ?_, fun hend => ?_,
      fun c' z' hc' hparent => ?_⟩
    · rw [hnone] at hmem
      cases hmem
    · cases hl.symm.trans hend
    · cases hp.children c' z' hc' hparent
      cases hp.child.symm.trans hc'
      refine ⟨fun file more hran => ?_, fun hran => ?_⟩
      · rw [hran] at hz
        exact hz.started_value
      · rw [hran] at hz
        exact hz.told

/-- Where `setenv` has failed, process 3 starts what the variable was before, and is then another
program. -/
theorem child_runs_command_date : ∃ t z,
    Reachable step (fun _ a => Meets (Fails True (2 : Pid 5)) 2 a)
      (.single 1 (2 : Pid 5) (.fresh 1 (fun _ => some (text "date")) (main []))) t ∧
    t.proc 3 = some z ∧ z.out = [text "Mon\n"] ∧ z.ran = [text "date"] ∧
    Value True (some (text "date")) (some (text "date")) := by
  have hne : (1 : Pid 5) ≠ 2 := by decide
  let image : Code Bytes := .print (text "Mon\n") <| .exit 0
  have hr : Run step (fun _ a => Meets (Fails True (2 : Pid 5)) 2 a)
      (.single 1 2 (.fresh 1 (fun _ => some (text "date")) (main [])))
      [.solo 2 (.next false), .fork 2 3, .solo 3 (.next true), .solo 3 (.exec (some image)),
        .solo 3 (.next true)] _ := exec_guarded rfl
  obtain ⟨e', -, -, -, -, hchild⟩ := child_runs_command (closed_single hne) (alone_single hne) rfl
    rfl rfl ⟨_, hr⟩
  exact ⟨_, _, ⟨_, hr⟩, rfl, rfl, rfl, (hchild 3 _ rfl rfl).1 _ _ rfl⟩

end EmbeddedLinux.Exec
