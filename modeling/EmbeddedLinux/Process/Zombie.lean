import EmbeddedLinux.Lib.CString
import EmbeddedLinux.Lib.Processes

/-!
# A parent that does not wait

The child ends at once, and the parent prints and sleeps, and does not call `wait`.

Among any other processes, a child that has ended stays a zombie, with its status, as long as the
parent runs.  When the parent ends, however it does, the zombie is given to the reaper, which can
then collect it (`zombie_until_parent_ends`).
-/

namespace EmbeddedLinux.Zombie

open CString Processes Transition WaitStatus

abbrev Bytes := List UInt8

def childLine (pid : Int) : Bytes :=
  text "Child (PID: " ++ decimal pid ++ text ") is terminating.\n"

def parentLine (pid : Int) : Bytes :=
  text "Parent (PID: " ++ decimal pid ++
    text ") is not calling wait(). Sleeping for 30 seconds...\n"

def child : Code Bytes := .getpid fun pid => .print (childLine pid) <| .exit 0

/-- Also when `fork` has failed. -/
def parent : Code Bytes := .getpid fun pid => .print (parentLine pid) <| .sleep <| .exit 0

def main : Code Bytes := .fork fun pid => if pid = 0 then child else parent

/-! ### The places of the two -/

inductive ChildAt : Life Bytes → Prop
  | start : ChildAt (.running child)
  | printing (pid : Int) : ChildAt (.running (.print (childLine pid) <| .exit 0))
  | exiting : ChildAt (.running (.exit 0))
  | exited : ChildAt (.zombie (exited 0))
  | killed {sig : Nat} {core : Bool} : 1 ≤ sig → sig ≤ 64 → ChildAt (.zombie (signaled sig core))

variable {N : Nat} {m c p : Pid N} {b : Bool} {mv : Move Bytes} {e e' z z' : Proc N Bytes}
  {s t u v : System N Bytes} {a : Action N Bytes} {ok : Pid N → Move Bytes → Prop}

theorem straight_parent : Straight parent := .getpid fun _ => .print (.sleep .exit)

theorem child_own (h : ChildAt z.life) (hown : Own s c z a z') : ChildAt z'.life := by
  obtain ⟨parent, env, out, ran, collected, life⟩ := z
  change ChildAt life at h
  cases hown with
  | move hmove =>
    have hkilled : ∀ {x : Proc N Bytes} {mv : Move Bytes},
        Killed ⟨parent, env, out, ran, collected, life⟩ mv x → ChildAt x.life := by
      rintro x mv ⟨h1, h2⟩
      exact .killed h1 h2
    cases h with
    | start =>
      obtain rfl | hkill := move_running rfl hmove
      · exact .printing _
      · exact hkilled hkill
    | printing pid =>
      obtain rfl | hkill := move_running rfl hmove
      · exact .exiting
      · exact hkilled hkill
    | exiting =>
      obtain rfl | hkill := move_running rfl hmove
      · exact .exited
      · exact hkilled hkill
    | exited | killed =>
      rw [move_zombie rfl] at hmove
      cases hmove
  | fork hl | wait hl =>
    change life = _ at hl
    subst hl
    cases h

/-! ### The contracts -/

theorem contract : Contract ok m (fun e : Proc N Bytes => e.life = .running main ∨ e.Straight)
    (fun _ e z => e.Straight ∧ e.ended = false ∧ ChildAt z.life) := by
  refine straight_contract (P := fun _ z => ChildAt z.life) (fun pid hpid => ?_)
    (fun _ _ => .start) (fun s a c z z' _ h _ hown => child_own h hown)
  rw [if_neg hpid]
  exact straight_parent

/-- The child `c` has ended, with the record `z`. -/
theorem zombie_contract (hz : z.ended = true) :
    Contract ok m (fun e : Proc N Bytes => e.ended = true)
    (fun c' e z' => e.Straight ∧ c' = c ∧ z' = z) where
  adopt e q h := h
  adoptPair c e z q h := h
  alone e mv e' h _ hmove := by
    obtain ⟨status, hl⟩ := life_of_ended h
    rw [move_zombie hl] at hmove
    cases hmove
  fork e k c h hl hpos := by
    obtain ⟨status, hl'⟩ := life_of_ended h
    cases hl.symm.trans hl'
  once c e z k h hl := by cases h.1 _ hl
  goes c e z mv e' h _ hmove _ := ⟨straight_move h.1 hmove, h.2⟩
  ends c e z mv e' h _ hmove hended := hended
  child s a c e z z' _ h _ hown := by
    obtain ⟨-, rfl, rfl⟩ := h
    exact absurd hown (not_own_of_ended hz)
  wait c e z k status h hl _ := by cases h.1 _ hl

/-! ### The main result -/

/-- The step that ends the parent gives the zombie to the reaper. -/
theorem given_to_reaper (hs : Closed s) (hp : Pair s m c e z) (hat : e.Straight)
    (hrun : e.ended = false) (hz : z.ended = true) (hok : Meets ok m a) (h : step s a = some t)
    (hm : t.proc m = some e') (hend : e'.ended = true) :
    t.proc c = some (z.adopt t.reaper) ∧ ∃ w, step t (.collect c) = some w ∧ w.proc c = none := by
  have hfork : ∀ k, e.life ≠ .running (.fork k) := fun k hl => by cases hat _ hl
  have hgiven : t.proc c = some (z.adopt t.reaper) := by
    rw [step_reaper h]
    obtain ⟨q, z', hp', -⟩ | ⟨mv, x, -, -, ⟨hx, hp'⟩ | ⟨-, -, hc⟩⟩ | ⟨k, status, hl, -⟩ :=
      pair_step hs hp h hok hfork
    · cases hm.symm.trans hp'.record
      cases hrun.symm.trans hend
    · cases hm.symm.trans hp'.record
      cases hx.symm.trans hend
    · exact hc
    · cases hat _ hl
  refine ⟨hgiven, t.set c none, ?_, System.set_self⟩
  rw [step, hgiven]
  exact if_pos ⟨hz, rfl⟩

/-- **A zombie until the parent ends.**  Among any other processes, until the parent itself is
collected: a parent that has ended has no child.  A child that has ended, having exited with 0 or
been killed, stays as it is while the parent runs; the step that ends the parent gives it to the
reaper, which can collect it at once. -/
theorem zombie_until_parent_ends (hs : Closed s) (hm : Alone s m e)
    (hlife : e.life = .running main) (hr : Reachable step (fun _ a => Meets ok m a) s t) :
    ∃ e', t.proc m = some e' ∧
      (e'.ended = true → ∀ c z, t.proc c = some z → z.parent ≠ m) ∧
      ∀ c z, t.proc c = some z → z.parent = m → z.ended = true → ChildAt z.life ∧
        ∀ u, Reachable step (fun _ a => Meets ok m a) t u →
          ∃ x, u.proc m = some x ∧ (x.ended = false → u.proc c = some z ∧
            ∀ a v y, Meets ok m a → step u a = some v → v.proc m = some y → y.ended = true →
              v.proc c = some (z.adopt v.reaper) ∧
              ∃ w, step v (.collect c) = some w ∧ w.proc c = none) := by
  have ht := closed_run hs hr
  obtain ⟨e', ⟨hm', -⟩ | ⟨c, z, hp, hat, hrun, hz⟩⟩ :=
    contract.run hs ⟨e, Or.inl ⟨hm, Or.inl hlife⟩⟩ hr
  · exact ⟨e', hm'.record, fun _ c z hc hz => hm'.children c z hc hz,
      fun c z hc hparent => (hm'.children c z hc hparent).elim⟩
  · refine ⟨e', hp.record, fun hend => ?_, fun c' z' hc' hparent hended => ?_⟩
    · cases hrun.symm.trans hend
    · cases hp.children c' z' hc' hparent
      cases hp.child.symm.trans hc'
      refine ⟨hz, fun u hu => ?_⟩
      have hclosed := closed_run ht hu
      obtain ⟨x, ⟨hmu, hend⟩ | ⟨_, _, hpu, hatu, rfl, rfl⟩⟩ :=
        (zombie_contract hended).run ht ⟨e', Or.inr ⟨_, z, hp, hat, rfl, rfl⟩⟩ hu
      · exact ⟨x, hmu.record, fun hrun => (by cases hrun.symm.trans hend)⟩
      · exact ⟨x, hpu.record, fun hrun => ⟨hpu.child, fun a v y hok hn hy hend =>
          given_to_reaper hclosed hpu hatu hrun hended hok hn hy hend⟩⟩

/-- The parent, process 2, is killed while it sleeps. -/
theorem zombie_until_parent_ends_killed : ∃ t v : System 5 Bytes,
    exec step (.single 1 2 (.fresh 1 (fun _ => none) main))
      [.fork 2 3, .solo 3 (.next true), .solo 3 (.next true), .solo 3 (.next true)] = some t ∧
    exec step t [.solo 2 (.next true), .solo 2 (.next true), .solo 2 (.kill 9 false)] = some v ∧
    ∃ w, step v (.collect 3) = some w ∧ w.proc 3 = none := by
  have hr : Run step (fun _ a => Meets (fun _ _ => True) (2 : Pid 5) a)
      (.single 1 2 (.fresh 1 (fun _ => none) main))
      [.fork 2 3, .solo 3 (.next true), .solo 3 (.next true), .solo 3 (.next true)] _ :=
    exec_guarded rfl
  obtain ⟨e', -, -, hzombie⟩ := zombie_until_parent_ends (closed_single (by decide))
    (alone_single (by decide)) rfl ⟨_, hr⟩
  obtain ⟨-, hlater⟩ := hzombie 3 _ rfl rfl rfl
  obtain ⟨x, hx, hgiven⟩ :=
    hlater _ ⟨[.solo 2 (.next true), .solo 2 (.next true)], exec_guarded rfl⟩
  cases hx
  obtain ⟨-, hends⟩ := hgiven rfl
  exact ⟨_, _, rfl, rfl, (hends (.solo 2 (.kill 9 false)) _ _ trivial rfl rfl rfl).2⟩

end EmbeddedLinux.Zombie
