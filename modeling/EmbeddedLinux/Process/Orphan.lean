import EmbeddedLinux.Lib.CString
import EmbeddedLinux.Lib.Processes

/-!
# A child that outlives its parent

The parent forks, prints and ends.  The child sleeps and then prints its own number and that of its
parent.

Nothing but the sleep lets the parent go first.  Among any other processes, the number that the
child prints is that of the parent that has forked it, or that of the reaper; and it is that of the
reaper when the parent had ended before the child asked (`orphan_sees_reaper`).
-/

namespace EmbeddedLinux.Orphan

open CString Processes Transition WaitStatus

abbrev Bytes := List UInt8

def childLine (pid ppid : Int) : Bytes :=
  text "Child process (PID: " ++ decimal pid ++ text "), new parent (PPID): " ++ decimal ppid ++
    text "\n"

def parentLine (pid : Int) : Bytes :=
  text "Parent process (PID: " ++ decimal pid ++ text ") is terminating.\n"

def child : Code Bytes :=
  .sleep <| .getpid fun pid => .getppid fun ppid => .print (childLine pid ppid) <| .exit 0

/-- Also when `fork` has failed. -/
def parent : Code Bytes := .getpid fun pid => .print (parentLine pid) <| .exit 0

def main : Code Bytes := .fork fun pid => if pid = 0 then child else parent

variable {N : Nat} {m c : Pid N} {b : Bool} {mv : Move Bytes} {e e' z z' : Proc N Bytes}
  {s t u : System N Bytes} {a : Action N Bytes} {ok : Pid N → Move Bytes → Prop}

/-! ### The child on its own -/

/-- The child `c` has not asked for its parent. -/
inductive Before (c : Pid N) : Life Bytes → Prop
  | sleeping : Before c (.running child)
  | awake : Before c (.running (.getpid fun pid => .getppid fun ppid =>
      .print (childLine pid ppid) <| .exit 0))
  | asking : Before c (.running (.getppid fun ppid => .print (childLine c.val ppid) <| .exit 0))

/-- The child `c`, with what it has printed; `Q` are the parents it may see. -/
inductive ChildAt (Q : Pid N → Prop) (c : Pid N) : Life Bytes → List Bytes → Prop
  | before {life : Life Bytes} : Before c life → ChildAt Q c life []
  | told {q : Pid N} : Q q →
      ChildAt Q c (.running (.print (childLine c.val q.val) <| .exit 0)) []
  | printed {q : Pid N} : Q q → ChildAt Q c (.running (.exit 0)) [childLine c.val q.val]
  | ended (status : Nat) {out : List Bytes} :
      (out = [] ∨ ∃ q, Q q ∧ out = [childLine c.val q.val]) → ChildAt Q c (.zombie status) out

variable {Q : Pid N → Prop}

theorem ChildAt.out_eq {life : Life Bytes} {out : List Bytes} (h : ChildAt Q c life out) :
    out = [] ∨ ∃ q, Q q ∧ out = [childLine c.val q.val] := by
  cases h with
  | before | told => exact Or.inl rfl
  | printed hq => exact Or.inr ⟨_, hq, rfl⟩
  | ended _ hout => exact hout

theorem ChildAt.out_of_before {life : Life Bytes} {out : List Bytes} (h : ChildAt Q c life out)
    (hb : Before c life) : out = [] := by
  cases h with
  | before | told => rfl
  | printed | ended => cases hb

/-- Where the child is, and who its parent is. -/
def Placed (Q : Pid N → Prop) (c : Pid N) (z : Proc N Bytes) : Prop :=
  ChildAt Q c z.life z.out ∧ Q z.parent

theorem placed_move (h : Placed Q c z) (hmove : z.move c b mv = some z') : Placed Q c z' := by
  obtain ⟨hat, hQ⟩ := h
  refine ⟨?_, (move_parent hmove).symm ▸ hQ⟩
  have hout := hat.out_eq
  obtain ⟨parent, env, out, ran, collected, life⟩ := z
  change ChildAt Q c life out at hat
  have hkilled : ∀ {x : Proc N Bytes}, Killed ⟨parent, env, out, ran, collected, life⟩ mv x →
      ChildAt Q c x.life x.out := by
    rintro x ⟨-, -⟩
    exact .ended _ hout
  cases hat with
  | before hb =>
    cases hb with
    | sleeping =>
      obtain rfl | hkill := move_running rfl hmove
      · exact .before .awake
      · exact hkilled hkill
    | awake =>
      obtain rfl | hkill := move_running rfl hmove
      · exact .before .asking
      · exact hkilled hkill
    | asking =>
      obtain rfl | hkill := move_running rfl hmove
      · exact .told hQ
      · exact hkilled hkill
  | told hq =>
    obtain rfl | hkill := move_running rfl hmove
    · exact .printed hq
    · exact hkilled hkill
  | printed hq =>
    obtain rfl | hkill := move_running rfl hmove
    · exact .ended _ hout
    · exact hkilled hkill
  | ended =>
    rw [move_zombie rfl] at hmove
    cases hmove

theorem placed_own (h : Placed Q c z) (hown : Own s c z a z') : Placed Q c z' := by
  cases hown with
  | move hmove => exact placed_move h hmove
  | fork hl | wait hl =>
    obtain ⟨hat, -⟩ := h
    rw [hl] at hat
    generalize z.out = out at hat
    cases hat with
    | before hb => cases hb

/-- **The child in any run**, as long as it is not collected. -/
theorem placed_run (hr : Reachable step (fun _ a => Meets ok c a) s t) (hQ : Q s.reaper)
    (hc : s.proc c = some z) (h : Placed Q c z) :
    t.reaper = s.reaper ∧ ∃ z', t.proc c = some z' ∧ Placed Q c z' := by
  refine hr.invariant (P := fun u => u.reaper = s.reaper ∧ ∃ z', u.proc c = some z' ∧ Placed Q c z')
    ⟨rfl, z, hc, h⟩ (fun u a v hu hok hn => ?_)
  obtain ⟨hreaper, z, hc, h⟩ := hu
  refine ⟨(step_reaper hn).trans hreaper, ?_⟩
  obtain hz | ⟨_, _, -, -, -, hz⟩ | ⟨z', hown, hz⟩ := record_step hn hok hc
  · exact ⟨z, hz, h⟩
  · refine ⟨_, hz, h.1, ?_⟩
    show Q u.reaper
    rw [hreaper]
    exact hQ
  · exact ⟨z', hz, placed_own h hown⟩

/-! ### The parent and the child -/

theorem contract (hQ : Q m) : Contract ok m
    (fun e : Proc N Bytes => e.life = .running main ∨ e.Straight)
    (fun c e z => e.Straight ∧ e.ended = false ∧ Placed Q c z) := by
  refine straight_contract (fun pid hpid => ?_) (fun c env => ⟨.before .sleeping, hQ⟩)
    (fun s a c z z' _ h _ hown => placed_own h hown)
  rw [if_neg hpid]
  exact .getpid fun _ => .print .exit

/-- The parents that the child may see. -/
def Seen (m r : Pid N) (q : Pid N) : Prop := q = m ∨ q = r

/-- **An orphan sees the reaper.**  Among any other processes, until the child itself is collected:
its parent is the one that has forked it, which runs, or the reaper.  It prints one line at most,
with one of these two numbers.  And when the parent has ended before the child has asked, what it
will print is the number of the reaper. -/
theorem orphan_sees_reaper (hs : Closed s) (htended : Tended s) (hm : Alone s m e)
    (hlife : e.life = .running main) (hr : Reachable step (fun _ a => Meets ok m a) s t)
    (hc : t.proc c = some z) (hparent : z.parent = m)
    (hu : Reachable step (fun _ a => Meets ok c a) t u) :
    ∃ y, u.proc c = some y ∧
      (y.parent = u.reaper ∨ y.parent = m ∧ ∃ x, u.proc m = some x ∧ x.ended = false) ∧
      (y.out = [] ∨ y.out = [childLine c.val m.val] ∨ y.out = [childLine c.val u.reaper.val]) ∧
      (Before c y.life → (∀ x, u.proc m = some x → x.ended = true) →
        ∀ v, Reachable step (fun _ a => Meets ok c a) u v → ∃ x, v.proc c = some x ∧
          (x.out = [] ∨ x.out = [childLine c.val u.reaper.val])) := by
  have hclosed := closed_run hs hr
  have hplaced : Placed (Seen m t.reaper) c z := by
    obtain ⟨e', ⟨hm', -⟩ | ⟨c', z', hp, -, -, hz'⟩⟩ :=
      (contract (Q := Seen m t.reaper) (Or.inl rfl)).run hs ⟨e, Or.inl ⟨hm, Or.inl hlife⟩⟩ hr
    · exact (hm'.children c z hc hparent).elim
    · cases hp.children c z hc hparent
      cases hp.child.symm.trans hc
      exact hz'
  obtain ⟨hreaper, y, hy, hat, hQ⟩ := placed_run hu (Or.inr rfl) hc hplaced
  have hparent' : y.parent = u.reaper ∨
      y.parent = m ∧ ∃ x, u.proc m = some x ∧ x.ended = false := by
    obtain ⟨-, hrun⟩ := tended_run hclosed (tended_run hs htended hr) hu c y hy
    obtain hr | ⟨x, hx, hrun⟩ := hrun
    · exact Or.inl hr
    · obtain hym | hyr := hQ
      · exact Or.inr ⟨hym, x, hym ▸ hx, hrun⟩
      · exact Or.inl (hyr.trans hreaper.symm)
  refine ⟨y, hy, hparent', ?_, fun hb hend v hv => ?_⟩
  · rw [hreaper]
    obtain hout | ⟨q, rfl | rfl, hout⟩ := hat.out_eq
    · exact Or.inl hout
    · exact Or.inr (Or.inl hout)
    · exact Or.inr (Or.inr hout)
  · have hyr : y.parent = u.reaper := by
      obtain hyr | ⟨-, x, hx, hrun⟩ := hparent'
      · exact hyr
      · cases hrun.symm.trans (hend x hx)
    obtain ⟨-, x, hx, hat', -⟩ := placed_run (Q := (· = u.reaper)) hv rfl hy
      ⟨hat.out_of_before hb ▸ .before hb, hyr⟩
    refine ⟨x, hx, ?_⟩
    obtain hout | ⟨q, rfl, hout⟩ := hat'.out_eq
    · exact Or.inl hout
    · exact Or.inr hout

/-- The parent, process 2, has ended before its child wakes up. -/
theorem orphan_sees_reaper_one : ∃ t u v : System 5 Bytes,
    exec step (.single 1 2 (.fresh 1 (fun _ => none) main)) [.fork 2 3] = some t ∧
    exec step t (List.replicate 3 (.solo 2 (.next true))) = some u ∧
    exec step u (List.replicate 4 (.solo 3 (.next true))) = some v ∧
    ∃ x, v.proc 3 = some x ∧ (x.out = [] ∨ x.out = [childLine 3 1]) := by
  have hne : (1 : Pid 5) ≠ 2 := by decide
  have hr : Reachable step (fun _ a => Meets (fun _ _ => True) (2 : Pid 5) a)
      (.single 1 2 (.fresh 1 (fun _ => none) main)) _ := ⟨[.fork 2 3], exec_guarded rfl⟩
  obtain ⟨y, hy, -, -, hprints⟩ := orphan_sees_reaper (c := 3) (closed_single hne)
    (tended_single rfl hne) (alone_single hne) rfl hr rfl rfl
    ⟨List.replicate 3 (.solo 2 (.next true)), exec_guarded rfl⟩
  cases hy
  refine ⟨_, _, _, rfl, rfl, rfl, hprints .sleeping (fun x hx => ?_) _
    ⟨List.replicate 4 (.solo 3 (.next true)), exec_guarded rfl⟩⟩
  cases hx
  rfl

end EmbeddedLinux.Orphan
