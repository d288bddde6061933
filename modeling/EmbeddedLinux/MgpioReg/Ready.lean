import EmbeddedLinux.Lib.Interference
import EmbeddedLinux.MgpioReg.Driver

/-!
# The register driver while it is loaded

From `cdev_add` on, processes can open the device and write, while `mgpio_init` still has to do the
rest: the class, the node, `mutex_init`, and the function of GPIO27.  Here its steps and those of
any number of processes interleave.

A write then may succeed while GPIO27 is no output, and `mutex_init` may unlock a lock that a
writer has (`served_too_early`).  Neither happens when no writer takes the
lock before `mutex_init`, none drives the pin before it is an output, and no process makes an
empty write before (`served_when_ready`).  From any other step a run goes on to one
of the two (`unready_step`).
-/

namespace EmbeddedLinux.MgpioReg

open CString Interference Transition

/-- How far `mgpio_init` has come. -/
inductive Stage
  | before
  /-- after `mutex_init` -/
  | initialised
  /-- after `gpio27_as_output` -/
  | configured
  | failed
  deriving DecidableEq

/-- A call of `mgpio_write` that has returned, with the stage and the controller at that time. -/
structure Returned where
  ret : Int
  stage : Stage
  gpio : Gpio

/-- `mgpio_init` runs in a thread of its own. -/
inductive ThreadId (P : Type*)
  | init
  | user (p : P)
  deriving DecidableEq

/-- `stage`, `returns` and `lockInits` are read by no step. -/
structure Memory (P : Type*) where
  gpio : Gpio
  /-- the registers are mapped -/
  mapped : Bool
  /-- the device can be opened -/
  live : Bool
  /-- the owner of `mgpio_lock` -/
  mgpioLock : Option P
  stage : Stage
  returns : List Returned
  /-- for each `mutex_init`, whether a writer had the lock -/
  lockInits : List Bool

inductive Pc
  /-- `mgpio_init` -/
  | ioremap
  | allocRegion
  | cdevAdd
  | classCreate
  | deviceCreate
  | mutexInit
  | readFsel
  | writeFsel (val : BitVec 32)
  | loaded
  | classDestroy (ret : Int)
  | cdevDel (ret : Int)
  | unregister (ret : Int)
  | unmap (ret : Int)
  | failed (ret : Int)
  /-- a process, between its calls -/
  | closed
  | opened
  /-- `mgpio_write` -/
  | copy (c : Call)
  | lock (len : Nat) (cmd : Option Bool)
  | drive (len : Nat) (x : Bool)
  | unlock (ret : Int)
  | ret (ret : Int)
  /-- the process is killed in the section -/
  | oops

/-- What the world decides in a step: what a call of the kernel returns to `mgpio_init`, or what a
process does next. -/
inductive Input
  | result (ret : Int)
  | openFile
  | release
  | write (c : Call)

variable {P : Type*}

def Memory.fail (m : Memory P) : Memory P := { m with stage := .failed }

def initStep (e : Input) (m : Memory P) : Pc → Option (Memory P × Pc)
  | .ioremap =>
    match e with
    | .result ret =>
      if ret = 0 then some ({ m with mapped := true }, .allocRegion)
      else some (m.fail, .failed enomem)
    | _ => none
  | .allocRegion =>
    match e with
    | .result ret => if ret = 0 then some (m, .cdevAdd) else some (m.fail, .unmap ret)
    | _ => none
  | .cdevAdd =>
    match e with
    | .result ret =>
      if ret = 0 then some ({ m with live := true }, .classCreate)
      else some (m.fail, .unregister ret)
    | _ => none
  | .classCreate =>
    match e with
    | .result ret => if ret = 0 then some (m, .deviceCreate) else some (m.fail, .cdevDel ret)
    | _ => none
  | .deviceCreate =>
    match e with
    | .result ret => if ret = 0 then some (m, .mutexInit) else some (m.fail, .classDestroy ret)
    | _ => none
  | .mutexInit =>
    some ({ m with
      mgpioLock := none
      stage := .initialised
      lockInits := m.lockInits ++ [m.mgpioLock.isSome] }, .readFsel)
  | .readFsel => some (m, .writeFsel (selectOutput m.gpio.gpfsel2))
  | .writeFsel val =>
    some ({ m with gpio := writel val .gpfsel2 m.gpio, stage := .configured }, .loaded)
  | .classDestroy ret => some (m, .cdevDel ret)
  | .cdevDel ret => some ({ m with live := false }, .unregister ret)
  | .unregister ret => some (m, .unmap ret)
  | .unmap ret => some ({ m with mapped := false }, .failed ret)
  | _ => none

def Memory.return (m : Memory P) (ret : Int) : Memory P :=
  { m with returns := m.returns ++ [{ ret := ret, stage := m.stage, gpio := m.gpio }] }

/-- A process keeps the device open as long as it wants, also behind `cdev_del`. -/
def userStep (p : P) (e : Input) (m : Memory P) : Pc → Option (Memory P × Pc)
  | .closed =>
    match e with
    | .openFile => if m.live then some (m, .opened) else none
    | _ => none
  | .opened =>
    match e with
    | .write c =>
      if min c.len (kbufSize - 1) = 0 then some (m.return 0, .opened) else some (m, .copy c)
    | .release => some (m, .closed)
    | _ => none
  | .copy c =>
    match copyFromUser c.ubuf (min c.len (kbufSize - 1)) with
    | none => some (m, .ret efault)
    | some kbuf => some (m, .lock c.len (command (kbuf ++ [0])))
  | .lock len cmd =>
    if m.mgpioLock.isNone then
      match cmd with
      | some x => some ({ m with mgpioLock := some p }, .drive len x)
      | none => some ({ m with mgpioLock := some p }, .unlock einval)
    else none
  | .drive len x =>
    if m.mapped then some ({ m with gpio := MgpioReg.drive x m.gpio }, .unlock len)
    else some (m, .oops)
  -- `mutex_unlock` frees the lock, also when `mutex_init` has freed it before
  | .unlock ret => some ({ m with mgpioLock := none }, .ret ret)
  | .ret ret => some (m.return ret, .opened)
  | _ => none

def step (t : ThreadId P) (e : Input) (m : Memory P) (pc : Pc) : Option (Memory P × Pc) :=
  match t with
  | .init => initStep e m pc
  | .user p => userStep p e m pc

/-- The module is about to be loaded. -/
def loading (g : Gpio) : State (ThreadId P) (Memory P) Pc where
  mem :=
    { gpio := g, mapped := false, live := false, mgpioLock := none, stage := .before, returns := [],
      lockInits := [] }
  pc
    | .init => .ioremap
    | .user _ => .closed

/-- A writer takes the lock only when `mutex_init` is done or will not be done; it drives the pin
only when that is an output; and no process makes an empty write earlier. -/
def Ready (_ : ThreadId P) (e : Input) (m : Memory P) (pc : Pc) : Prop :=
  match pc with
  | .opened =>
    match e with
    | .write c => min c.len (kbufSize - 1) = 0 → m.stage = .configured
    | _ => True
  | .lock _ _ => m.stage ≠ .before
  | .drive _ _ => m.mapped = true → m.stage = .configured
  | _ => True

instance (t : ThreadId P) (e : Input) (m : Memory P) (pc : Pc) : Decidable (Ready t e m pc) := by
  cases pc <;> cases e <;> dsimp only [Ready] <;> infer_instance

/-! ### The invariant -/

/-- Where `mgpio_init` is in each stage. -/
def InitAt (pc : Pc) (m : Memory P) : Prop :=
  match pc with
  | .ioremap | .allocRegion | .cdevAdd | .classCreate | .deviceCreate | .mutexInit =>
    m.stage = .before
  | .readFsel => m.stage = .initialised
  | .writeFsel val => m.stage = .initialised ∧ ∃ v, val = selectOutput v
  | .loaded => m.stage = .configured
  | .classDestroy _ | .cdevDel _ | .unregister _ | .unmap _ | .failed _ => m.stage = .failed
  | _ => False

/-- A write on its way to a return without an error is one on a pin that is an output. -/
def UserAt (pc : Pc) (m : Memory P) : Prop :=
  match pc with
  | .unlock ret | .ret ret => 0 ≤ ret → m.stage = .configured
  | _ => True

def Assertion (t : ThreadId P) (pc : Pc) (m : Memory P) : Prop :=
  match t with
  | .init => InitAt pc m
  | .user _ => UserAt pc m

/-- No write has succeeded too early, and no `mutex_init` has found a writer. -/
structure Orderly (m : Memory P) : Prop where
  returns : ∀ r ∈ m.returns, 0 ≤ r.ret → r.stage = .configured ∧ IsOutput r.gpio
  lockInits : ∀ held ∈ m.lockInits, held = false

structure Inv (m : Memory P) : Prop where
  orderly : Orderly m
  output : m.stage = .configured → IsOutput m.gpio
  lock : m.mgpioLock ≠ none → m.stage ≠ .before

/-! ### The steps keep the invariant -/

variable {t u : ThreadId P} {p : P} {e : Input} {m m' : Memory P} {pc pc' : Pc}

theorem Orderly.return (h : Orderly m) {ret : Int}
    (hret : 0 ≤ ret → m.stage = .configured ∧ IsOutput m.gpio) : Orderly (m.return ret) := by
  refine ⟨fun r hr => ?_, h.lockInits⟩
  rcases List.mem_append.1 hr with hr | hr
  · exact h.returns r hr
  · rw [List.mem_singleton] at hr
    rw [hr]
    exact hret

theorem not_orderly_return {ret : Int} (hret : 0 ≤ ret)
    (hs : m.stage ≠ .configured) : ¬ Orderly (m.return ret) := fun h =>
  hs (h.returns _ (List.mem_append_right _ (List.mem_singleton.2 rfl)) hret).1

theorem Orderly.lockInit (h : Orderly m) (hfree : m.mgpioLock = none) {held : Bool}
    (hheld : held ∈ m.lockInits ++ [m.mgpioLock.isSome]) : held = false := by
  rcases List.mem_append.1 hheld with hheld | hheld
  · exact h.lockInits held hheld
  · rw [List.mem_singleton] at hheld
    rw [hheld, hfree]
    rfl

/-- The place of `mgpio_init` goes with the stage. -/
theorem initStep_at (ha : InitAt pc m) (h : initStep e m pc = some (m', pc')) : InitAt pc' m' := by
  cases pc with
  | ioremap | allocRegion | cdevAdd | classCreate | deviceCreate =>
    cases e with
    | result ret =>
      simp only [initStep] at h
      split at h <;> cases h
      · exact ha
      · exact rfl
    | _ => cases h
  | mutexInit | writeFsel =>
    cases h
    exact rfl
  | readFsel =>
    cases h
    exact ⟨ha, _, rfl⟩
  | classDestroy | cdevDel | unregister | unmap =>
    cases h
    exact ha
  | _ => cases h

/-- `mgpio_init` does nothing after its end. -/
theorem not_configured (ha : InitAt pc m) (h : initStep e m pc = some (m', pc')) :
    m.stage ≠ .configured := by
  have hne : ∀ st : Stage, st ≠ .configured → m.stage = st → m.stage ≠ .configured := by
    intro st hst hm
    rw [hm]
    exact hst
  cases pc with
  | ioremap | allocRegion | cdevAdd | classCreate | deviceCreate | mutexInit =>
    exact hne .before (by decide) ha
  | readFsel => exact hne .initialised (by decide) ha
  | writeFsel val => exact hne .initialised (by decide) ha.1
  | classDestroy | cdevDel | unregister | unmap => exact hne .failed (by decide) ha
  | _ => cases h

/-- `mutex_init` finds no writer, as those are not let in before. -/
theorem initStep_inv (hm : Inv m) (ha : InitAt pc m) (h : initStep e m pc = some (m', pc')) :
    Inv m' := by
  obtain ⟨⟨hret, hinits⟩, hout, hlock⟩ := hm
  cases pc with
  | ioremap | allocRegion | cdevAdd | classCreate | deviceCreate =>
    cases e with
    | result ret =>
      simp only [initStep] at h
      split at h <;> cases h
      · exact ⟨⟨hret, hinits⟩, hout, hlock⟩
      · exact ⟨⟨hret, hinits⟩, fun h => (by cases h), fun _ h => (by cases h)⟩
    | _ => cases h
  | mutexInit =>
    cases h
    have hfree : m.mgpioLock = none := by
      by_contra hbusy
      exact hlock hbusy ha
    exact ⟨⟨hret, fun _ => Orderly.lockInit ⟨hret, hinits⟩ hfree⟩, fun h => (by cases h),
      fun h => absurd rfl h⟩
  | writeFsel val =>
    cases h
    obtain ⟨-, v, rfl⟩ := ha
    exact ⟨⟨hret, hinits⟩, fun _ => isOutput_asOutput { m.gpio with gpfsel2 := v },
      fun _ h => (by cases h)⟩
  | readFsel | classDestroy | cdevDel | unregister | unmap =>
    cases h
    exact ⟨⟨hret, hinits⟩, hout, hlock⟩
  | _ => cases h

/-- A process leaves to `mgpio_init` what that has done. -/
theorem userStep_frame (h : userStep p e m pc = some (m', pc')) : m'.stage = m.stage := by
  cases pc with
  | closed =>
    cases e with
    | openFile =>
      simp only [userStep] at h
      split at h <;> cases h
      rfl
    | _ => cases h
  | opened =>
    cases e with
    | write c =>
      simp only [userStep] at h
      split at h <;> cases h <;> rfl
    | release =>
      cases h
      rfl
    | _ => cases h
  | copy c =>
    simp only [userStep] at h
    split at h <;> cases h <;> rfl
  | lock len cmd =>
    simp only [userStep] at h
    split at h
    · cases cmd <;> cases h <;> rfl
    · cases h
  | drive len x =>
    simp only [userStep] at h
    split at h <;> cases h <;> rfl
  | unlock | ret =>
    cases h
    rfl
  | _ => cases h

theorem isOutput_drive {g : Gpio} (h : IsOutput g) (x : Bool) : IsOutput (drive x g) := by
  unfold IsOutput
  rw [(drive_spec x g).2.1]
  exact h

theorem userStep_own (hm : Inv m) (ha : UserAt pc m) (hok : Ready (.user p) e m pc)
    (h : userStep p e m pc = some (m', pc')) : Inv m' ∧ UserAt pc' m' := by
  cases pc with
  | closed =>
    cases e with
    | openFile =>
      simp only [userStep] at h
      split at h <;> cases h
      exact ⟨hm, trivial⟩
    | _ => cases h
  | opened =>
    cases e with
    | write c =>
      simp only [userStep] at h
      split at h <;> cases h
      · rename_i hempty
        exact ⟨⟨hm.orderly.return (fun _ => ⟨hok hempty, hm.output (hok hempty)⟩), hm.output,
          hm.lock⟩, trivial⟩
      · exact ⟨hm, trivial⟩
    | release =>
      cases h
      exact ⟨hm, trivial⟩
    | _ => cases h
  | copy c =>
    simp only [userStep] at h
    split at h <;> cases h
    · exact ⟨hm, fun h => (by cases h)⟩
    · exact ⟨hm, trivial⟩
  | lock len cmd =>
    simp only [userStep] at h
    split at h
    · have hm' : Inv { m with mgpioLock := some p } :=
        ⟨⟨hm.orderly.returns, hm.orderly.lockInits⟩, hm.output, fun _ => hok⟩
      cases cmd <;> cases h
      · exact ⟨hm', fun h => (by cases h)⟩
      · exact ⟨hm', trivial⟩
    · cases h
  | drive len x =>
    simp only [userStep] at h
    split at h <;> cases h
    · rename_i hmapped
      exact ⟨⟨⟨hm.orderly.returns, hm.orderly.lockInits⟩, fun h => isOutput_drive (hm.output h) x,
        hm.lock⟩, fun _ => hok hmapped⟩
    · exact ⟨hm, trivial⟩
  | unlock ret =>
    cases h
    exact ⟨⟨⟨hm.orderly.returns, hm.orderly.lockInits⟩, hm.output, fun h => absurd rfl h⟩, ha⟩
  | ret ret =>
    cases h
    exact ⟨⟨hm.orderly.return (fun hret => ⟨ha hret, hm.output (ha hret)⟩), hm.output, hm.lock⟩,
      trivial⟩
  | _ => cases h

theorem InitAt.congr (h : InitAt pc m) (hs : m'.stage = m.stage) : InitAt pc m' := by
  cases pc <;> simp only [InitAt, hs] at h ⊢ <;> exact h

theorem UserAt.congr (h : UserAt pc m) (hs : m.stage = .configured → m'.stage = .configured) :
    UserAt pc m' := by
  cases pc with
  | unlock | ret => exact fun hret => hs (h hret)
  | _ => exact trivial

/-- The assertions of the threads that do not move. -/
theorem step_others {k : Pc} (ha : Assertion t pc m) (hne : u ≠ t) (hu : Assertion u k m)
    (h : step t e m pc = some (m', pc')) : Assertion u k m' := by
  cases t with
  | init =>
    cases u with
    | init => exact absurd rfl hne
    | user q => exact UserAt.congr hu (fun hs => absurd hs (not_configured ha h))
  | user p =>
    have hs := userStep_frame h
    cases u with
    | init => exact InitAt.congr hu hs
    | user q => exact UserAt.congr hu (fun hconf => hs.trans hconf)

/-- **The proof outline of the runs in which no writer comes too early.** -/
theorem ready_outline : Outline (step (P := P)) Ready Inv Assertion where
  own t _ _ _ _ _ hm ha hok h := by
    cases t with
    | init => exact ⟨initStep_inv hm ha h, initStep_at ha h⟩
    | user p => exact userStep_own hm ha hok h
  others _ _ _ _ _ _ _ _ hne _ ha hu _ h := step_others ha hne hu h

/-- In all runs the stage goes with the place of `mgpio_init`. -/
theorem stage_outline : Outline (step (P := P)) (fun _ _ _ _ => True) (fun _ => True)
    (fun t pc m => t = .init → InitAt pc m) where
  own t _ _ _ _ _ _ ha _ h := by
    refine ⟨trivial, fun ht => ?_⟩
    subst ht
    exact initStep_at (ha rfl) h
  others t _ _ _ _ _ u _ hne _ ha hu _ h := by
    intro hu'
    subst hu'
    cases t with
    | init => exact absurd rfl hne
    | user p => exact (hu rfl).congr (userStep_frame h)

/-! ### The main result -/

theorem inv_loading (g : Gpio) : Inv (loading (P := P) g).mem :=
  ⟨⟨fun _ h => (by cases h), fun _ h => (by cases h)⟩, fun h => (by cases h), fun h => absurd rfl h⟩

theorem assertion_loading (g : Gpio) (t : ThreadId P) :
    Assertion t ((loading g).pc t) (loading (P := P) g).mem := by
  cases t with
  | init => exact rfl
  | user p => exact trivial

variable [DecidableEq P] {g : Gpio} {s s' : State (ThreadId P) (Memory P) Pc}

/-- **No command is served too early.**  In every run in which no writer takes the lock before
`mutex_init` and none drives the pin before that is an output: a write that has succeeded has
found GPIO27 configured as an output, and `mutex_init` has found no writer. -/
theorem served_when_ready (hr : Reachable (next step) (When Ready) (loading g) s) :
    (∀ r ∈ s.mem.returns, 0 ≤ r.ret → r.stage = .configured ∧ IsOutput r.gpio) ∧
      ∀ held ∈ s.mem.lockInits, held = false := by
  obtain ⟨hm, -⟩ := ready_outline.reachable ⟨inv_loading g, assertion_loading g⟩ hr
  exact ⟨hm.orderly.returns, hm.orderly.lockInits⟩

/-! ### A write alone -/

theorem next_user {p : P} {m : Memory P} {pc pc' : Pc} (hpc : s.pc (.user p) = pc)
    (h : userStep p e s.mem pc = some (m, pc')) :
    next step s (.user p, e) = some (s.move (.user p) m pc') := by
  refine next_eq_some.2 ⟨m, pc', ?_, rfl⟩
  rw [hpc]
  exact h

/-- A process alone goes from `s` to the end of its call, with the memory `m`. -/
def Ends (s : State (ThreadId P) (Memory P) Pc) (p : P) (m : Memory P) : Prop :=
  ∃ s', Reachable (next step) Any s s' ∧ s'.pc (.user p) = .opened ∧ s'.mem = m

theorem Ends.step {p : P} {m m' : Memory P} {pc pc' : Pc} (hpc : s.pc (.user p) = pc)
    (h : userStep p e s.mem pc = some (m, pc')) (hgo : Ends (s.move (.user p) m pc') p m') :
    Ends s p m' := by
  obtain ⟨s', ⟨as, hr⟩, hend⟩ := hgo
  exact ⟨s', ⟨_, .cons trivial (next_user hpc h) hr⟩, hend⟩

theorem Ends.ret {p : P} {ret : Int} {m : Memory P} (hpc : s.pc (.user p) = .ret ret)
    (hm : m = s.mem.return ret) : Ends s p m :=
  .step (e := .release) hpc rfl ⟨_, .refl _, State.move_self .., hm.symm⟩

theorem Ends.unlock {p : P} {ret : Int} {m : Memory P} (hpc : s.pc (.user p) = .unlock ret)
    (hm : m = Memory.return { s.mem with mgpioLock := none } ret) : Ends s p m :=
  .step (e := .release) hpc rfl (.ret (State.move_self ..) hm)

/-- **One level up.**  A write that no other thread interrupts does what `mgpioWrite` does. -/
theorem write_alone {p : P} {c : Call} (hpc : s.pc (.user p) = .opened)
    (hfree : s.mem.mgpioLock = none) (hmapped : s.mem.mapped = true) :
    Ends s p (Memory.return { s.mem with gpio := (mgpioWrite c s.mem.gpio).2 }
      (mgpioWrite c s.mem.gpio).1) := by
  obtain ⟨⟨gpio, mapped, live, mgpioLock, stage, returns, lockInits⟩, pcs⟩ := s
  simp only at hfree hmapped hpc
  subst hfree hmapped
  unfold mgpioWrite
  by_cases hn : min c.len (kbufSize - 1) = 0
  · simp only [if_pos hn]
    exact .step (e := .write c) hpc (by rw [userStep, if_pos hn]; rfl)
      ⟨_, .refl _, State.move_self .., rfl⟩
  · simp only [if_neg hn]
    refine .step (e := .write c) hpc (by rw [userStep, if_neg hn]) ?_
    cases hcopy : copyFromUser c.ubuf (min c.len (kbufSize - 1)) with
    | none =>
      exact .step (e := .release) (State.move_self ..) (by simp only [userStep, hcopy]; rfl)
        (.ret (State.move_self ..) rfl)
    | some kbuf =>
      refine .step (e := .release) (State.move_self ..) (by simp only [userStep, hcopy]; rfl) ?_
      cases hcmd : command (kbuf ++ [0]) with
      | none =>
        simp only [hcmd]
        exact .step (e := .release) (State.move_self ..) rfl (.unlock (State.move_self ..) rfl)
      | some x =>
        simp only [hcmd]
        exact .step (e := .release) (State.move_self ..) rfl
          (.step (e := .release) (State.move_self ..) rfl (.unlock (State.move_self ..) rfl))

/-! ### Any other step -/

/-- `mgpio_init` can go on to `mutex_init`, whoever has the lock. -/
def Inits (s : State (ThreadId P) (Memory P) Pc) : Prop :=
  ∃ s', Reachable (next step) Any s s' ∧ s'.pc .init = .mutexInit ∧
    s'.mem.mgpioLock = s.mem.mgpioLock

theorem next_init {m : Memory P} {pc pc' : Pc} (hpc : s.pc .init = pc)
    (h : initStep e s.mem pc = some (m, pc')) :
    next step s (.init, e) = some (s.move .init m pc') := by
  refine next_eq_some.2 ⟨m, pc', ?_, rfl⟩
  rw [hpc]
  exact h

theorem Inits.step {m : Memory P} {pc pc' : Pc} (hpc : s.pc .init = pc)
    (h : initStep (.result 0) s.mem pc = some (m, pc')) (hlock : m.mgpioLock = s.mem.mgpioLock)
    (hgo : Inits (s.move .init m pc')) : Inits s := by
  obtain ⟨s', ⟨as, hr⟩, hpc', hlock'⟩ := hgo
  exact ⟨s', ⟨_, .cons trivial (next_init hpc h) hr⟩, hpc', hlock'.trans hlock⟩

/-- Each call on the way succeeds. -/
theorem inits_of_before (ha : InitAt (s.pc .init) s.mem) (hs : s.mem.stage = .before) :
    Inits s := by
  have h5 : ∀ s : State (ThreadId P) (Memory P) Pc, s.pc .init = .mutexInit → Inits s :=
    fun s hpc => ⟨s, .refl s, hpc, rfl⟩
  have h4 : ∀ s : State (ThreadId P) (Memory P) Pc, s.pc .init = .deviceCreate → Inits s :=
    fun s hpc => .step hpc rfl rfl (h5 _ (State.move_self ..))
  have h3 : ∀ s : State (ThreadId P) (Memory P) Pc, s.pc .init = .classCreate → Inits s :=
    fun s hpc => .step hpc rfl rfl (h4 _ (State.move_self ..))
  have h2 : ∀ s : State (ThreadId P) (Memory P) Pc, s.pc .init = .cdevAdd → Inits s :=
    fun s hpc => .step hpc rfl rfl (h3 _ (State.move_self ..))
  have h1 : ∀ s : State (ThreadId P) (Memory P) Pc, s.pc .init = .allocRegion → Inits s :=
    fun s hpc => .step hpc rfl rfl (h2 _ (State.move_self ..))
  cases hpc : s.pc .init with
  | ioremap => exact .step hpc rfl rfl (h1 _ (State.move_self ..))
  | allocRegion => exact h1 s hpc
  | cdevAdd => exact h2 s hpc
  | classCreate => exact h3 s hpc
  | deviceCreate => exact h4 s hpc
  | mutexInit => exact h5 s hpc
  | writeFsel val =>
    rw [hpc] at ha
    have := hs.symm.trans ha.1
    cases this
  | readFsel | loaded | classDestroy | cdevDel | unregister | unmap | failed =>
    rw [hpc] at ha
    have := hs.symm.trans ha
    cases this
  | _ =>
    rw [hpc] at ha
    exact ha.elim

/-- **A step that comes too early** goes on to a write that succeeds too early, or to a
`mutex_init` that finds a writer. -/
theorem unready_step {a : ThreadId P × Input} (hr : Reachable (next step) Any (loading g) s)
    (hbad : ¬ When Ready s a) (hn : next step s a = some s') :
    ∃ s'', Reachable (next step) Any s' s'' ∧ ¬ Orderly s''.mem := by
  have hinit : InitAt (s.pc .init) s.mem :=
    (stage_outline.any ⟨trivial, fun t ht => ht ▸ assertion_loading g .init⟩ hr).2 .init rfl
  obtain ⟨t, e⟩ := a
  obtain ⟨m, pc, hstep, rfl⟩ := next_eq_some.1 hn
  unfold When at hbad
  simp only at hbad hstep ⊢
  cases t with
  | init =>
    -- no place of `mgpio_init` is one of those
    cases hpc : s.pc .init <;> rw [hpc] at hbad hinit
    case opened | lock | drive => exact hinit.elim
    all_goals exact absurd trivial hbad
  | user p =>
    cases hpc : s.pc (.user p) <;> rw [hpc] at hbad hstep
    case opened =>
      cases e with
      | write c =>
        obtain ⟨hempty, hs⟩ := Classical.not_imp.1 hbad
        simp only [step, userStep, if_pos hempty] at hstep
        cases hstep
        exact ⟨_, .refl _, not_orderly_return (le_refl 0) hs⟩
      | _ => exact absurd trivial hbad
    case drive len x =>
      obtain ⟨hmapped, hs⟩ := Classical.not_imp.1 hbad
      simp only [step, userStep, if_pos hmapped] at hstep
      cases hstep
      -- the writer goes on alone
      obtain ⟨s'', hrun, -, hend⟩ : Ends (s.move (.user p) _ (.unlock len)) p _ :=
        .unlock (State.move_self ..) rfl
      refine ⟨s'', hrun, ?_⟩
      rw [hend]
      exact not_orderly_return (Int.natCast_nonneg len) hs
    case lock len cmd =>
      have hs : s.mem.stage = .before := Classical.not_not.1 hbad
      have hlock : m.mgpioLock = some p ∧ m.stage = s.mem.stage := by
        simp only [step, userStep] at hstep
        split at hstep
        · cases cmd <;> cases hstep <;> exact ⟨rfl, rfl⟩
        · cases hstep
      -- `mgpio_init` goes on alone
      obtain ⟨s'', hrun, hpc', hlock'⟩ := inits_of_before (s := s.move (.user p) m pc)
        (by
          rw [State.move_of_ne (by simp)]
          exact hinit.congr hlock.2) (hlock.2.trans hs)
      refine ⟨_, hrun.step trivial (next_init (e := .result 0) hpc' rfl), fun h => ?_⟩
      have := h.lockInits _ (List.mem_append_right _ (List.mem_singleton.2 rfl))
      rw [hlock', State.move_mem, hlock.1] at this
      cases this
    all_goals exact absurd trivial hbad

/-! ### Runs -/

/-- The calls of `mgpio_init` that succeed, up to where the device is live. -/
def initLive : List (ThreadId (Fin 2) × Input) := List.replicate 3 (.init, .result 0)

/-- A process opens the device and writes `data`, up to where it has the lock. -/
def writeUpToLock (data : String) : List (ThreadId (Fin 2) × Input) :=
  [(.user 0, .openFile), (.user 0, .write (.of (text data))), (.user 0, .release),
    (.user 0, .release)]

/-- The rest of the write. -/
def writeRest : List (ThreadId (Fin 2) × Input) := List.replicate 3 (.user 0, .release)

/-- A process opens the device and begins to write between `cdev_add` and `mutex_init`, but takes
the lock only when the module is loaded. -/
theorem served_when_ready_on : ∃ s : State (ThreadId (Fin 2)) (Memory (Fin 2)) Pc,
    Reachable (next step) (When Ready) (loading bareBoard.gpio) s ∧
      s.mem.returns.length = 1 ∧ s.mem.lockInits.length = 1 ∧
      (∀ r ∈ s.mem.returns, 0 ≤ r.ret → r.stage = .configured ∧ IsOutput r.gpio) ∧
      ∀ held ∈ s.mem.lockInits, held = false := by
  have hr : Reachable (next step) (When Ready) (loading (P := Fin 2) bareBoard.gpio) _ :=
    ⟨initLive ++ (writeUpToLock "on").dropLast ++ List.replicate 5 (.init, .result 0) ++
      (.user 0, .release) :: writeRest, exec_guarded rfl⟩
  exact ⟨_, hr, rfl, rfl, served_when_ready hr⟩

/-- A writer comes between `cdev_add` and `mutex_init`: that frees its lock, and the write succeeds
while GPIO27 is no output. -/
theorem served_too_early : ∃ s : State (ThreadId (Fin 2)) (Memory (Fin 2)) Pc,
    Reachable (next step) Any (loading bareBoard.gpio) s ∧ true ∈ s.mem.lockInits ∧
      ∃ r ∈ s.mem.returns, 0 ≤ r.ret ∧ r.stage ≠ .configured ∧ ¬ IsOutput r.gpio := by
  have hr : Reachable (next step) Any (loading (P := Fin 2) bareBoard.gpio) _ :=
    ⟨initLive ++ writeUpToLock "on" ++ List.replicate 3 (.init, .result 0) ++ writeRest,
      exec_run rfl⟩
  exact ⟨_, hr, List.mem_singleton.2 rfl,
    { ret := 2, stage := .initialised, gpio := drive true bareBoard.gpio },
    List.mem_singleton.2 rfl, by decide, by decide, by decide⟩

end EmbeddedLinux.MgpioReg
