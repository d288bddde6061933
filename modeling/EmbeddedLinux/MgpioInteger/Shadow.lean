import EmbeddedLinux.Lib.Interference
import EmbeddedLinux.Lib.KString
import EmbeddedLinux.Lib.Registry

/-!
# The integer driver and its shadow state

`mgpio_write` drives a GPIO and keeps what it has driven in `gpio_state`, both under `mgpio_lock`,
in two steps; `mgpio_read` reads `gpio_state` without the lock.  Any number of processes make any
calls, in any interleaving.  What the driver prints to the kernel log is left out.

`accepted` is the command of the write that was the last to hold the lock with a command, and
`lastSuccess` that of the write that was the last to return a count.  These may be
different ones, as a write returns some time after it has released the lock.  `returns` and
`reads` keep what the calls have returned.  None of these is read by a step.
-/

namespace EmbeddedLinux.MgpioInteger

open CString KString Interference Registry Transition

/-- `BUF_LEN` -/
abbrev bufLen : Nat := 32

/-- `-EFAULT` and `-EINVAL` -/
def efault : Int := -14
def einval : Int := -22

/-! ### Loading the module -/

/-- What the driver registers with the kernel. -/
inductive Resource
  | gpio
  | region
  | cdev
  | deviceClass
  | node
  deriving DecidableEq

/-- The errors of the calls in `mgpio_init`, 0 for a call that succeeds. -/
structure InitEnv where
  valid : Bool
  request : Int
  direction : Int
  region : Int
  cdev : Int
  deviceClass : Int
  node : Int

structure Board where
  level : Int
  gpioState : Int
  regs : Book Resource

/-- Takes back what has been registered, the last first. -/
def Board.undo (b : Board) (rs : List Resource) : Board := { b with regs := b.regs.releaseAll rs }

def Board.register (b : Board) (r : Resource) : Board := { b with regs := b.regs.acquire r }

/-- `mgpio_init`: what it returns, and the board after it. -/
def mgpioInit (b : Board) (e : InitEnv) : Int × Board :=
  if !e.valid then (einval, b)
  else if e.request ≠ 0 then (e.request, b)
  else
    let b := b.register .gpio
    if e.direction ≠ 0 then (e.direction, b.undo [.gpio])
    else
      let b := { b with level := 0, gpioState := 0 }
      if e.region ≠ 0 then (e.region, b.undo [.gpio])
      else
        let b := b.register .region
        if e.cdev ≠ 0 then (e.cdev, b.undo [.region, .gpio])
        else
          let b := b.register .cdev
          if e.deviceClass ≠ 0 then (e.deviceClass, b.undo [.cdev, .region, .gpio])
          else
            let b := b.register .deviceClass
            if e.node ≠ 0 then (e.node, b.undo [.deviceClass, .cdev, .region, .gpio])
            else (0, b.register .node)

/-- When the module is loaded, the GPIO is low. -/
theorem mgpioInit_low {b : Board} {e : InitEnv} (h : (mgpioInit b e).1 = 0) :
    (mgpioInit b e).2.level = 0 ∧ (mgpioInit b e).2.gpioState = 0 := by
  unfold mgpioInit at h ⊢
  split
  · rename_i hvalid
    rw [if_pos hvalid] at h
    cases h
  · rename_i hvalid
    rw [if_neg hvalid] at h
    split
    · rename_i hrequest
      rw [if_pos hrequest] at h
      exact absurd h hrequest
    · rename_i hrequest
      rw [if_neg hrequest] at h
      split
      · rename_i hdirection
        rw [if_pos hdirection] at h
        exact absurd h hdirection
      · repeat' split
        all_goals exact ⟨rfl, rfl⟩

/-! ### The command -/

/-- What the loop in `mgpio_write` cuts off at the end. -/
def isTrimmed (c : UInt8) : Bool := c == 10 || c == 13 || c == 32 || c == 9

/-- `while (len && ...) kbuf[--len] = '\0';`: the array and `len` after it. -/
def trimLoop : List UInt8 → Nat → List UInt8 × Nat
  | kbuf, 0 => (kbuf, 0)
  | kbuf, len + 1 =>
    if isTrimmed (kbuf.getD len 0) then trimLoop (kbuf.set len 0) len else (kbuf, len + 1)

/-- `kbuf` before the loop, as far as it was written. -/
def fillKbuf (data : List UInt8) : List UInt8 := data ++ [0]

/-- The tests on `kbuf`: the level that is asked for, if the command is known. -/
def parse (kbuf : List UInt8) : Option Int :=
  if strncasecmp kbuf (text "on") 2 then some 1
  else if strncasecmp kbuf (text "off") 3 then some 0
  else none

/-- The command in the bytes copied from the user. -/
def command (data : List UInt8) : Option Int := parse (trimLoop (fillKbuf data) data.length).1

/-- What `scnprintf` puts into `tmp`. -/
def stateText (gpioState : Int) : List UInt8 :=
  ((if gpioState ≠ 0 then text "on" else text "off") ++ text "\n").take 7

/-! ### The calls -/

/-- A call of `mgpio_write` that has returned, and whether it has driven the GPIO or stored
`gpio_state`. -/
structure Returned where
  ret : Int
  changed : Bool

/-- A call of `mgpio_read` that has returned, with the value of `gpio_state` that it has read, and
what it has copied to the user. -/
structure ReadDone where
  pos : Nat
  loaded : Int
  ret : Int
  copied : List UInt8

structure Memory (T : Type*) where
  /-- the level driven on `gpio_num` -/
  level : Int
  gpioState : Int
  /-- the owner of `mgpio_lock` -/
  mgpioLock : Option T
  accepted : Int
  lastSuccess : Int
  returns : List Returned
  reads : List ReadDone

/-- Where a process is in its call, if it is in one. -/
inductive Pc
  | idle
  /-- `mgpio_write` -/
  | copy (count : Nat)
  | lock (count : Nat) (cmd : Option Int)
  | test (count : Nat) (cmd : Option Int)
  | drive (count : Nat) (x : Int)
  | store (count : Nat) (x : Int)
  | unlock (count : Nat) (x : Int)
  | unlockUnknown
  | ret (count : Nat) (x : Int)
  | retUnknown
  /-- `mgpio_read` -/
  | load (count pos : Nat)
  | check (count pos : Nat) (loaded : Int)

/-- The place, and whether this write has changed anything. -/
structure Local where
  pc : Pc
  changed : Bool

/-- What the world decides in a step: which call is made next, and whether the user's memory
can be read or written. -/
inductive Input
  | write (count : Nat)
  | read (count pos : Nat)
  | data (bytes : List UInt8)
  | fault
  | ok

/-- The end of `mgpio_read`: what it returns, and what it has copied to the user. -/
def readEnd (count pos : Nat) (loaded : Int) (e : Input) : Option (Int × List UInt8) :=
  let tmp := stateText loaded
  if pos > 0 then some (0, [])
  else if count < tmp.length then some (einval, [])
  else
    match e with
    | .ok => some (tmp.length, tmp)
    | .fault => some (efault, [])
    | _ => none

variable {T : Type*}

def step (t : T) (e : Input) (m : Memory T) (l : Local) : Option (Memory T × Local) :=
  match l.pc with
  | .idle =>
    match e with
    | .write count => some (m, { pc := .copy count, changed := false })
    | .read count pos => some (m, { pc := .load count pos, changed := false })
    | _ => none
  | .copy count =>
    match e with
    | .data bytes =>
      if bytes.length = min count (bufLen - 1) then
        some (m, { l with pc := .lock count (command bytes) })
      else none
    | .fault =>
      some ({ m with returns := m.returns ++ [{ ret := efault, changed := l.changed }] },
        { l with pc := .idle })
    | _ => none
  | .lock count cmd =>
    if m.mgpioLock = none then
      some ({ m with mgpioLock := some t }, { l with pc := .test count cmd })
    else none
  | .test count cmd =>
    match cmd with
    | some x => some (m, { l with pc := .drive count x })
    | none => some (m, { l with pc := .unlockUnknown })
  | .drive count x => some ({ m with level := x }, { pc := .store count x, changed := true })
  | .store count x => some ({ m with gpioState := x }, { pc := .unlock count x, changed := true })
  | .unlock count x =>
    some ({ m with mgpioLock := none, accepted := x }, { l with pc := .ret count x })
  | .unlockUnknown => some ({ m with mgpioLock := none }, { l with pc := .retUnknown })
  | .ret count x =>
    some ({ m with
      lastSuccess := x
      returns := m.returns ++ [{ ret := count, changed := l.changed }] }, { l with pc := .idle })
  | .retUnknown =>
    some ({ m with returns := m.returns ++ [{ ret := einval, changed := l.changed }] },
      { l with pc := .idle })
  | .load count pos => some (m, { l with pc := .check count pos m.gpioState })
  | .check count pos loaded =>
    match readEnd count pos loaded e with
    | some (ret, copied) =>
      let r : ReadDone := { pos := pos, loaded := loaded, ret := ret, copied := copied }
      some ({ m with reads := m.reads ++ [r] }, { l with pc := .idle })
    | none => none

/-- After `mgpio_init`, with no call yet. -/
def opened (b : Board) : State T (Memory T) Local where
  mem :=
    { level := b.level, gpioState := b.gpioState, mgpioLock := none, accepted := 0,
      lastSuccess := 0, returns := [], reads := [] }
  pc _ := { pc := .idle, changed := false }

/-! ### The invariant -/

/-- The process has the mutex. -/
def Pc.holds : Pc → Bool
  | .test _ _ | .drive _ _ | .store _ _ | .unlock _ _ | .unlockUnknown => true
  | _ => false

/-- The write has not come to `gpio_set_value`, and will not if its command is unknown. -/
def Pc.before : Pc → Bool
  | .copy _ | .lock _ _ | .test _ _ | .drive _ _ | .unlockUnknown | .retUnknown => true
  | _ => false

/-- The GPIO and `gpio_state` are what the last command has made them. -/
def Agree (m : Memory T) : Prop := m.level = m.accepted ∧ m.gpioState = m.accepted

/-- What the calls have returned. -/
structure Results (returns : List Returned) (reads : List ReadDone) : Prop where
  returns : ∀ r ∈ returns, r.ret = efault ∨ r.ret = einval → r.changed = false
  reads : ∀ r ∈ reads, r.pos = 0 → 0 < r.ret →
    r.ret = r.copied.length ∧ r.copied = if r.loaded ≠ 0 then text "on\n" else text "off\n"

structure Inv (m : Memory T) : Prop where
  agree : m.mgpioLock = none → Agree m
  results : Results m.returns m.reads

structure Assertion (t : T) (l : Local) (m : Memory T) : Prop where
  mutex : l.pc.holds = true → m.mgpioLock = some t
  unchanged : l.pc.before = true → l.changed = false
  state : match l.pc with
    | .test _ _ | .drive _ _ | .unlockUnknown => Agree m
    | .store _ x => m.level = x
    | .unlock _ x => m.level = x ∧ m.gpioState = x
    | _ => True

/-! ### The steps keep the invariant -/

variable {t u : T} {e : Input} {m m' : Memory T} {l l' k : Local}

theorem Results.append_return {returns : List Returned} {reads : List ReadDone}
    (h : Results returns reads) {r : Returned}
    (hr : r.ret = efault ∨ r.ret = einval → r.changed = false) :
    Results (returns ++ [r]) reads := by
  refine ⟨fun x hx => ?_, h.reads⟩
  rcases List.mem_append.1 hx with hx | hx
  · exact h.returns x hx
  · rw [List.mem_singleton] at hx
    rw [hx]
    exact hr

theorem Results.append_read {returns : List Returned} {reads : List ReadDone}
    (h : Results returns reads) {r : ReadDone}
    (hr : r.pos = 0 → 0 < r.ret → r.ret = r.copied.length ∧
      r.copied = if r.loaded ≠ 0 then text "on\n" else text "off\n") :
    Results returns (reads ++ [r]) := by
  refine ⟨h.returns, fun x hx => ?_⟩
  rcases List.mem_append.1 hx with hx | hx
  · exact h.reads x hx
  · rw [List.mem_singleton] at hx
    rw [hx]
    exact hr

/-- The text fits into `tmp`. -/
theorem stateText_eq (x : Int) :
    stateText x = if x ≠ 0 then text "on\n" else text "off\n" := by
  unfold stateText
  split <;> rfl

/-- A read that succeeds has copied the whole text and returns its length. -/
theorem readEnd_copied {count pos : Nat} {loaded ret : Int} {copied : List UInt8}
    (h : readEnd count pos loaded e = some (ret, copied)) (hret : 0 < ret) :
    ret = copied.length ∧ copied = if loaded ≠ 0 then text "on\n" else text "off\n" := by
  rw [← stateText_eq]
  simp only [readEnd] at h
  split at h
  · cases h
    cases hret
  · split at h
    · cases h
      cases hret
    · split at h
      · cases h
        exact ⟨rfl, rfl⟩
      · cases h
        cases hret
      · cases h

/-- What the lock protects is left as it is. -/
theorem Assertion.frame (hu : Assertion u k m) (hlock : m.mgpioLock = some u →
      m'.mgpioLock = some u ∧ m'.level = m.level ∧ m'.gpioState = m.gpioState ∧
        m'.accepted = m.accepted) : Assertion u k m' := by
  obtain ⟨hmutex, hunch, hstate⟩ := hu
  refine ⟨fun hpc => (hlock (hmutex hpc)).1, hunch, ?_⟩
  obtain ⟨pc, changed⟩ := k
  cases pc with
  | test count cmd | drive count x | store count x | unlock count x | unlockUnknown =>
    obtain ⟨-, hlevel, hgpio, hacc⟩ := hlock (hmutex rfl)
    simp only [Agree, hlevel, hgpio, hacc] at hstate ⊢
    exact hstate
  | _ => exact trivial

theorem step_own (hm : Inv m) (ha : Assertion t l m) (h : step t e m l = some (m', l')) :
    Inv m' ∧ Assertion t l' m' := by
  obtain ⟨pc, changed⟩ := l
  obtain ⟨hmutex, hunch, hstate⟩ := ha
  cases pc with
  | idle =>
    cases e with
    | write count | read count pos =>
      cases h
      exact ⟨hm, fun h => (by cases h), fun _ => rfl, trivial⟩
    | _ => cases h
  | copy count =>
    cases e with
    | data bytes =>
      simp only [step] at h
      split at h
      · cases h
        exact ⟨hm, fun h => (by cases h), fun _ => hunch rfl, trivial⟩
      · cases h
    | fault =>
      cases h
      refine ⟨⟨hm.agree, hm.results.append_return (fun _ => hunch rfl)⟩, ?_⟩
      exact ⟨fun h => (by cases h), fun h => (by cases h), trivial⟩
    | _ => cases h
  | lock count cmd =>
    simp only [step] at h
    split at h
    · rename_i hfree
      cases h
      exact ⟨⟨fun h => (by cases h), hm.results⟩, fun _ => rfl, fun _ => hunch rfl, hm.agree hfree⟩
    · cases h
  | test count cmd =>
    cases cmd <;> cases h <;> exact ⟨hm, fun _ => hmutex rfl, fun _ => hunch rfl, hstate⟩
  | drive count x =>
    cases h
    have hbusy : m.mgpioLock ≠ none := by
      rw [hmutex rfl]
      exact fun e => by cases e
    exact ⟨⟨fun h => absurd h hbusy, hm.results⟩, fun _ => hmutex rfl, fun h => (by cases h), rfl⟩
  | store count x =>
    cases h
    have hbusy : m.mgpioLock ≠ none := by
      rw [hmutex rfl]
      exact fun e => by cases e
    exact ⟨⟨fun h => absurd h hbusy, hm.results⟩, fun _ => hmutex rfl, fun h => (by cases h),
      hstate, rfl⟩
  | unlock count x =>
    cases h
    exact ⟨⟨fun _ => hstate, hm.results⟩, fun h => (by cases h), fun h => (by cases h), trivial⟩
  | unlockUnknown =>
    cases h
    exact ⟨⟨fun _ => hstate, hm.results⟩, fun h => (by cases h), fun _ => hunch rfl, trivial⟩
  | ret count x =>
    cases h
    refine ⟨⟨hm.agree, hm.results.append_return (fun hret => ?_)⟩, ?_⟩
    · -- a count is no error
      simp only [efault, einval] at hret
      omega
    · exact ⟨fun h => (by cases h), fun h => (by cases h), trivial⟩
  | retUnknown =>
    cases h
    refine ⟨⟨hm.agree, hm.results.append_return (fun _ => hunch rfl)⟩, ?_⟩
    exact ⟨fun h => (by cases h), fun h => (by cases h), trivial⟩
  | load count pos =>
    cases h
    exact ⟨hm, fun h => (by cases h), fun h => (by cases h), trivial⟩
  | check count pos loaded =>
    simp only [step] at h
    split at h
    · rename_i ret copied hend
      cases h
      refine ⟨⟨hm.agree, hm.results.append_read (fun _ => readEnd_copied hend)⟩, ?_⟩
      exact ⟨fun h => (by cases h), fun h => (by cases h), trivial⟩
    · cases h

/-- What a process leaves to the one that holds the lock. -/
theorem step_frame (ha : Assertion t l m) (hne : u ≠ t) (h : step t e m l = some (m', l'))
    (hu : m.mgpioLock = some u) : m'.mgpioLock = some u ∧ m'.level = m.level ∧
      m'.gpioState = m.gpioState ∧ m'.accepted = m.accepted := by
  obtain ⟨pc, changed⟩ := l
  have hfree : pc.holds = true → False := fun hpc => by
    have := ha.mutex hpc
    rw [hu] at this
    exact hne (Option.some_inj.1 this)
  cases pc with
  | drive | store | unlock | unlockUnknown => exact (hfree rfl).elim
  | lock count cmd =>
    simp only [step, hu] at h
    cases h
  | idle =>
    cases e <;> cases h <;> exact ⟨hu, rfl, rfl, rfl⟩
  | copy count =>
    cases e with
    | data bytes =>
      simp only [step] at h
      split at h <;> cases h
      exact ⟨hu, rfl, rfl, rfl⟩
    | fault =>
      cases h
      exact ⟨hu, rfl, rfl, rfl⟩
    | _ => cases h
  | test count cmd => exact (hfree rfl).elim
  | check count pos loaded =>
    simp only [step] at h
    split at h <;> cases h
    exact ⟨hu, rfl, rfl, rfl⟩
  | ret | retUnknown | load =>
    cases h
    exact ⟨hu, rfl, rfl, rfl⟩

/-- **The proof outline of the driver.** -/
theorem outline : Outline (step (T := T)) (fun _ _ _ _ => True) Inv Assertion where
  own _ _ _ _ _ _ hm ha _ h := step_own hm ha h
  others _ _ _ _ _ _ _ _ hne _ ha hu _ h := hu.frame (step_frame ha hne h)

/-! ### The main result -/

theorem holds_opened {b : Board} {e : InitEnv} (h : (mgpioInit b e).1 = 0) :
    Holds Inv Assertion (opened (T := T) (mgpioInit b e).2) := by
  refine ⟨⟨fun _ => mgpioInit_low h, ?_, ?_⟩, fun t => ⟨?_, ?_, trivial⟩⟩
  · intro r hr
    cases hr
  · intro r hr
    cases hr
  · intro h
    cases h
  · intro h
    cases h

variable [DecidableEq T]

/-- **The GPIO and its shadow agree.**  After a successful `mgpio_init`, whatever calls are made:
while the lock is free, the level is `gpio_state`, and both are the command of the write that
was the last to hold the lock with one; a write that fails has changed neither; and a read at
offset 0 that succeeds has copied the text for the value it has read, and returns its length. -/
theorem shadow_agrees {b : Board} {e : InitEnv} (hinit : (mgpioInit b e).1 = 0)
    {s : State T (Memory T) Local}
    (hr : Reachable (next step) Any (opened (mgpioInit b e).2) s) :
    (s.mem.mgpioLock = none →
        s.mem.level = s.mem.gpioState ∧ s.mem.gpioState = s.mem.accepted) ∧
      (∀ r ∈ s.mem.returns, r.ret = efault ∨ r.ret = einval → r.changed = false) ∧
      ∀ r ∈ s.mem.reads, r.pos = 0 → 0 < r.ret →
        r.ret = r.copied.length ∧
          r.copied = if r.loaded ≠ 0 then text "on\n" else text "off\n" := by
  obtain ⟨hm, -⟩ := outline.any (holds_opened hinit) hr
  refine ⟨fun hfree => ?_, hm.results.returns, hm.results.reads⟩
  obtain ⟨hlevel, hgpio⟩ := hm.agree hfree
  exact ⟨hlevel.trans hgpio.symm, hgpio⟩

/-- A board before the module is loaded, and calls that all succeed. -/
def bareBoard : Board where
  level := 1
  gpioState := 0
  regs := { held := fun _ => false, log := [] }

def allGood : InitEnv where
  valid := true
  request := 0
  direction := 0
  region := 0
  cdev := 0
  deviceClass := 0
  node := 0

/-- A process that writes, up to where it has released the lock. -/
def writeUpToReturn (t : Fin 2) (data : String) : List (Fin 2 × Input) :=
  [(t, .write (text data).length), (t, .data (text data)), (t, .ok), (t, .ok), (t, .ok), (t, .ok),
    (t, .ok)]

/-- A write of "on", and a read. -/
theorem shadow_agrees_on : ∃ s, Reachable (next step) Any
    (opened (T := Fin 2) (mgpioInit bareBoard allGood).2) s ∧ s.mem.accepted = 1 ∧
      (s.mem.level = s.mem.gpioState ∧ s.mem.gpioState = s.mem.accepted) ∧
      ∃ r ∈ s.mem.reads, r.ret = 3 ∧ r.ret = r.copied.length ∧
        r.copied = if r.loaded ≠ 0 then text "on\n" else text "off\n" := by
  have hr : Reachable (next step) Any (opened (T := Fin 2) (mgpioInit bareBoard allGood).2) _ :=
    ⟨writeUpToReturn 0 "On\n" ++ [(1, .read 4 0), (1, .ok), (1, .ok)], exec_run rfl⟩
  obtain ⟨hagree, -, hreads⟩ := shadow_agrees rfl hr
  exact ⟨_, hr, rfl, hagree rfl, _, List.mem_singleton.2 rfl, rfl,
    hreads _ (List.mem_singleton.2 rfl) rfl (by decide)⟩

/-- Two writes that return in the other order: "on" gets the lock first and returns last. -/
theorem returns_after_the_other : ∃ s, Reachable (next step) Any
    (opened (T := Fin 2) (mgpioInit bareBoard allGood).2) s ∧
      (∀ t, (s.pc t).pc = .idle) ∧ s.mem.mgpioLock = none ∧ s.mem.lastSuccess = 1 ∧
        s.mem.level = 0 := by
  refine ⟨_, ⟨writeUpToReturn 0 "on" ++ writeUpToReturn 1 "off" ++ [(1, .ok), (0, .ok)],
    exec_run rfl⟩, fun t => ?_, rfl, rfl, rfl⟩
  match t with
  | 0 => rfl
  | 1 => rfl

end EmbeddedLinux.MgpioInteger
