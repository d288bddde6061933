import EmbeddedLinux.Lib.ModuleLife
import EmbeddedLinux.MgpioInteger.Command

/-!
# The lives of the integer driver

The module is loaded, used through any number of open files, and unloaded again, any number of
times, with calls that fail in any of the loads.  The calls come one after the other; what happens
when they interleave is in `MgpioInteger.Shadow`.

`mgpio_open` takes a reference to the module of its own, beside that of the kernel, and
`mgpio_exit` asks whether the class and the node are there before it removes them.  Both make no
difference (`mgpio_life`): the module can be unloaded when no file is open, and all is taken back.
A load that fails may have driven the GPIO low before.
-/

namespace EmbeddedLinux.MgpioInteger

open CString ModuleLife Registry Transition

/-- What `CLASS_CREATE` or `device_create` has left in its variable. -/
inductive Ptr
  | null
  | err
  | valid
  deriving DecidableEq

/-- The board, and the static variables that `mgpio_exit` looks at. -/
structure Module where
  board : Board
  mgpioClass : Ptr
  mgpioDev : Ptr

/-- `mgpio_init` gets as far as `gpio_direction_output`, and that succeeds. -/
def InitEnv.driven (e : InitEnv) : Bool :=
  e.valid && decide (e.request = 0) && decide (e.direction = 0)

/-- It gets as far as `CLASS_CREATE`. -/
def InitEnv.toClass (e : InitEnv) : Bool :=
  e.driven && decide (e.region = 0) && decide (e.cdev = 0)

/-- `mgpio_init` on new static variables. -/
def load (e : InitEnv) (m : Module) : Int × Module :=
  let r := mgpioInit { m.board with gpioState := 0 } e
  (r.1,
    { board := r.2
      mgpioClass := if e.toClass then (if e.deviceClass ≠ 0 then .err else .valid) else .null
      mgpioDev :=
        if e.toClass && decide (e.deviceClass = 0) then (if e.node ≠ 0 then .err else .valid)
        else .null })

/-- `mgpio_exit` -/
def mgpioExit (m : Module) : Module :=
  let b := if m.mgpioDev = .valid then m.board.undo [.node] else m.board
  let b := if m.mgpioClass = .valid then b.undo [.deviceClass] else b
  let b := b.undo [.cdev, .region]
  { m with board := { b with level := 0 }.undo [.gpio] }

/-- An open file: the offset, and the texts that have been read. -/
structure File where
  pos : Nat
  got : List (List UInt8)

/-- A call on an open file. -/
inductive FileCall
  /-- with what was in `kbuf` before -/
  | write (kbuf : Fin bufLen → UInt8) (data : List UInt8)
  /-- a write from memory that cannot be read -/
  | writeFault
  | read (count : Nat) (room : Bool)

/-- What a call of `gpio_set_value` changes, with the assignment behind it. -/
def Board.drive (b : Board) (x : Int) : Board := { b with level := x, gpioState := x }

def fileCall (m : Module) (f : File) : FileCall → Module × File
  | .write kbuf data =>
    match mgpioWrite (List.ofFn kbuf) data with
    | some d => ({ m with board := d.set.foldl Board.drive m.board }, f)
    | none => (m, f)
  | .writeFault => (m, f)
  | .read count room =>
    match readEnd count f.pos m.board.gpioState (if room then .ok else .fault) with
    | some (ret, copied) =>
      if ret > 0 then (m, { pos := ret.toNat, got := f.got ++ [copied] }) else (m, f)
    | none => (m, f)

/-- `mgpio_open` and `mgpio_release` take and give back one reference. -/
def mgpio : Driver Module File InitEnv FileCall where
  init := load
  exit := mgpioExit
  call c m f := fileCall m f c
  newFile := { pos := 0, got := [] }
  own := 1

/-- The level after an action. -/
def levelAfter (x : Int) : Action InitEnv FileCall → Int
  | .call _ (.write _ data) => (command (data.take (bufLen - 1))).getD x
  | .call _ (.read _ _) | .call _ .writeFault => x
  | .insmod e => if e.driven then 0 else x
  | .rmmod => 0
  | .openFile | .closeFile _ => x

/-! ### The functions of the driver -/

/-- What is registered while the module is loaded, the last first. -/
def registered : List Resource := [.node, .deviceClass, .cdev, .region, .gpio]

/-- The calls of `mgpio_init` that register something; an error of `gpio_direction_output` stands
for one of the call behind it. -/
def InitEnv.calls (e : InitEnv) : List (Resource × Int) :=
  [(.gpio, if e.valid then e.request else einval),
    (.region, if e.direction ≠ 0 then e.direction else e.region), (.cdev, e.cdev),
    (.deviceClass, e.deviceClass), (.node, e.node)]

/-- `mgpio_init` is all or nothing, but for the level. -/
theorem mgpioInit_eq (b : Board) (e : InitEnv) :
    (mgpioInit b e).1 = (b.regs.tryAll [] e.calls).1 ∧
    (mgpioInit b e).2.regs = (b.regs.tryAll [] e.calls).2 ∧
    (mgpioInit b e).2.level = (if e.driven then 0 else b.level) ∧
    (mgpioInit b e).2.gpioState = (if e.driven then 0 else b.gpioState) ∧
    ((mgpioInit b e).1 = 0 → e.toClass = true ∧ e.deviceClass = 0 ∧ e.node = 0) := by
  obtain ⟨valid, request, direction, region, cdev, deviceClass, node⟩ := e
  simp only [mgpioInit, InitEnv.calls, Book.tryAll, InitEnv.toClass, InitEnv.driven]
  have h0 : ¬ (0 : Int) ≠ 0 := not_not.2 rfl
  cases valid with
  | false => exact ⟨rfl, rfl, rfl, rfl, fun h => (by cases h)⟩
  | true =>
    by_cases hrequest : request ≠ 0
    · simp only [reduceIte, if_pos hrequest, decide_eq_false hrequest]
      exact ⟨rfl, rfl, rfl, rfl, fun h => absurd h hrequest⟩
    · rw [not_not] at hrequest
      subst hrequest
      by_cases hdirection : direction ≠ 0
      · simp only [reduceIte, if_neg h0, if_pos hdirection, decide_eq_false hdirection]
        exact ⟨rfl, rfl, rfl, rfl, fun h => absurd h hdirection⟩
      · rw [not_not] at hdirection
        subst hdirection
        by_cases hregion : region ≠ 0
        · simp only [reduceIte, if_neg h0, if_pos hregion]
          exact ⟨rfl, rfl, rfl, rfl, fun h => absurd h hregion⟩
        · rw [not_not] at hregion
          subst hregion
          by_cases hcdev : cdev ≠ 0
          · simp only [reduceIte, if_neg h0, if_pos hcdev]
            exact ⟨rfl, rfl, rfl, rfl, fun h => absurd h hcdev⟩
          · rw [not_not] at hcdev
            subst hcdev
            by_cases hclass : deviceClass ≠ 0
            · simp only [reduceIte, if_neg h0, if_pos hclass]
              exact ⟨rfl, rfl, rfl, rfl, fun h => absurd h hclass⟩
            · rw [not_not] at hclass
              subst hclass
              by_cases hnode : node ≠ 0
              · simp only [reduceIte, if_neg h0, if_pos hnode]
                exact ⟨rfl, rfl, rfl, rfl, fun h => absurd h hnode⟩
              · rw [not_not] at hnode
                subst hnode
                exact ⟨rfl, rfl, rfl, rfl, fun _ => ⟨rfl, rfl, rfl⟩⟩

/-- What `mgpio_exit` leaves of a module that has been loaded. -/
theorem mgpioExit_eq {m : Module} (hclass : m.mgpioClass = .valid) (hdev : m.mgpioDev = .valid) :
    (mgpioExit m).board.regs = m.board.regs.releaseAll registered ∧
      (mgpioExit m).board.level = 0 := by
  simp only [mgpioExit, hclass, hdev, if_true]
  exact ⟨rfl, rfl⟩

/-- A call sets the GPIO and `gpio_state` together. -/
theorem fileCall_board (c : FileCall) (m : Module) (f : File) :
    (fileCall m f c).1 = m ∨ ∃ x, (fileCall m f c).1 = { m with board := m.board.drive x } := by
  cases c with
  | write kbuf data =>
    obtain ⟨len, -, hwrite⟩ := mgpioWrite_eq kbuf data
    simp only [fileCall, hwrite]
    cases command (data.take (bufLen - 1)) with
    | none => exact Or.inl rfl
    | some x => exact Or.inr ⟨x, rfl⟩
  | writeFault => exact Or.inl rfl
  | read count room =>
    left
    simp only [fileCall]
    split
    · split <;> rfl
    · rfl

/-- The level that it leaves. -/
theorem fileCall_level (i : Nat) (c : FileCall) (m : Module) (f : File) :
    (fileCall m f c).1.board.level = levelAfter m.board.level (.call i c) := by
  cases c with
  | write kbuf data =>
    obtain ⟨len, -, hwrite⟩ := mgpioWrite_eq kbuf data
    simp only [fileCall, hwrite, levelAfter]
    cases command (data.take (bufLen - 1)) with
    | none => rfl
    | some x => rfl
  | writeFault => rfl
  | read count room =>
    simp only [fileCall]
    split
    · split <;> rfl
    · rfl

/-- A read that succeeds is one at the start of the file. -/
theorem readEnd_pos {count pos : Nat} {loaded ret : Int} {copied : List UInt8} {e : Input}
    (h : readEnd count pos loaded e = some (ret, copied)) (hret : 0 < ret) :
    pos = 0 ∧ copied = stateText loaded := by
  simp only [readEnd] at h
  split at h
  · cases h
    cases hret
  · rename_i hpos
    refine ⟨by omega, ?_⟩
    split at h
    · cases h
      cases hret
    · split at h
      · cases h
        rfl
      · cases h
        cases hret
      · cases h

/-! ### The conditions -/

/-- The program has read nothing, or one text. -/
def Reads (f : File) : Prop := f.pos = 0 ∧ f.got = [] ∨ 0 < f.pos ∧ ∃ x, f.got = [stateText x]

theorem Reads.call {f : File} (h : Reads f) (c : FileCall) (m : Module) :
    Reads (fileCall m f c).2 := by
  cases c with
  | write kbuf data =>
    simp only [fileCall]
    split <;> exact h
  | writeFault => exact h
  | read count room =>
    simp only [fileCall]
    split
    · rename_i ret copied hread
      split
      · rename_i hret
        obtain ⟨hpos, hcopied⟩ := readEnd_pos hread hret
        refine Or.inr ⟨by simpa using hret, m.board.gpioState, ?_⟩
        obtain ⟨-, hgot⟩ | ⟨hpos', -⟩ := h
        · show f.got ++ [copied] = _
          rw [hgot, hcopied]
          rfl
        · omega
      · exact h
    · exact h

/-- While the module is loaded. -/
structure Holds (m : Module) : Prop where
  stacked : m.board.regs.Stacked registered
  agree : m.board.gpioState = m.board.level
  mgpioClass : m.mgpioClass = .valid
  mgpioDev : m.mgpioDev = .valid

theorem keeps : Keeps mgpio (fun m => m.board.regs.Stacked []) Holds Reads := by
  refine ⟨fun e m h => ?_, fun m h => ?_, fun c m f h hf => ⟨?_, hf.call c m⟩, Or.inl ⟨rfl, rfl⟩⟩
  · have hnodup : (e.calls.map Prod.fst).Nodup :=
      show [Resource.gpio, .region, .cdev, .deviceClass, .node].Nodup by decide
    have hall := Book.Stacked.tryAll [] h hnodup (fun _ _ hmem => by cases hmem)
    obtain ⟨hret, hregs, hlevel, hstate, hgood⟩ := mgpioInit_eq { m.board with gpioState := 0 } e
    rw [show m.board.regs = { m.board with gpioState := 0 }.regs from rfl, ← hret, ← hregs] at hall
    show if (mgpioInit { m.board with gpioState := 0 } e).1 = 0 then Holds (load e m).2
      else (load e m).2.board.regs.Stacked []
    split
    · rename_i h0
      rw [if_pos h0] at hall
      obtain ⟨hclass, hdev, hnode⟩ := hgood h0
      have hdriven : e.driven = true := by
        rw [InitEnv.toClass, Bool.and_eq_true, Bool.and_eq_true] at hclass
        exact hclass.1.1
      rw [hdriven] at hlevel hstate
      refine ⟨hall, hstate.trans hlevel.symm, ?_, ?_⟩
      · simp only [load, hclass, hdev]
        rfl
      · simp only [load, hclass, hdev, hnode]
        rfl
    · rename_i h0
      rw [if_neg h0] at hall
      exact hall
  · show (mgpioExit m).board.regs.Stacked []
    rw [(mgpioExit_eq h.mgpioClass h.mgpioDev).1]
    exact h.stacked.releaseAll registered
  · show Holds (fileCall m f c).1
    obtain hsame | ⟨x, hdrive⟩ := fileCall_board c m f
    · rw [hsame]
      exact h
    · rw [hdrive]
      exact ⟨h.stacked, rfl, h.mgpioClass, h.mgpioDev⟩

/-! ### The main result -/

/-- **The level in one step.** -/
theorem level_step {s t : ModuleLife.State Module File} {a : Action InitEnv FileCall}
    (h : Alive mgpio (fun m => m.board.regs.Stacked []) Holds Reads s)
    (hn : ModuleLife.step mgpio s a = some t) :
    t.data.board.level = levelAfter s.data.board.level a := by
  cases a with
  | insmod e =>
    obtain ⟨-, ht⟩ := Option.ite_none_left_eq_some.1 hn
    cases ht
    exact (mgpioInit_eq { s.data.board with gpioState := 0 } e).2.2.1
  | rmmod =>
    obtain ⟨⟨hloaded, -⟩, ht⟩ := Option.ite_none_right_eq_some.1 hn
    cases ht
    have hdata := h.data
    rw [if_pos hloaded] at hdata
    exact (mgpioExit_eq hdata.mgpioClass hdata.mgpioDev).2
  | openFile =>
    obtain ⟨-, ht⟩ := Option.ite_none_right_eq_some.1 hn
    cases ht
    rfl
  | closeFile i =>
    obtain ⟨f, -, rfl⟩ := Option.map_eq_some_iff.1 hn
    rfl
  | call i c =>
    obtain ⟨f, -, rfl⟩ := Option.map_eq_some_iff.1 hn
    exact fileCall_level i c s.data f

/-- And in a run. -/
theorem level_run {m : Module} {s : ModuleLife.State Module File}
    {as : List (Action InitEnv FileCall)} (h0 : m.board.regs.Stacked [])
    (hr : Run (ModuleLife.step mgpio) Any (start m) as s) :
    s.data.board.level = as.foldl levelAfter m.board.level := by
  induction hr with
  | nil => rfl
  | snoc hr _ hn ih =>
    rw [level_step (keeps.run h0 ⟨_, hr⟩) hn, ih, List.foldl_append, List.foldl_cons,
      List.foldl_nil]

/-- A module that has not been loaded, on a board with a level. -/
def unloaded (x : Int) : Module :=
  { board := { level := x, gpioState := 0, regs := .blank }, mgpioClass := .null,
    mgpioDev := .null }

/-- **The lives of the integer driver.**  Whatever fails in `mgpio_init`, and however the device is
used: what has been registered and not taken back is all of it while the module is loaded,
nothing while it is not, and is taken back in the opposite order; the references are two for each
open file, so the module can be unloaded exactly when there is none; `gpio_state` is the
level while the module is loaded; the level is that of the last command, unloading, or load that got
as far as the direction; and an open file has given its reader the state once at most. -/
theorem mgpio_life {x : Int} {s : ModuleLife.State Module File}
    {as : List (Action InitEnv FileCall)}
    (hr : Run (ModuleLife.step mgpio) Any (start (unloaded x)) as s) :
    s.data.board.regs.Stacked (if s.loaded = true then registered else []) ∧
    s.refs = 2 * s.opened ∧
    (s.loaded = true → ((ModuleLife.step mgpio s .rmmod).isSome = true ↔ ∀ f ∈ s.files, f = none)) ∧
    (s.loaded = true → s.data.board.gpioState = s.data.board.level) ∧
    s.data.board.level = as.foldl levelAfter x ∧ ∀ f, some f ∈ s.files → f.got.length ≤ 1 := by
  have hstart : (unloaded x).board.regs.Stacked [] := Book.stacked_blank
  have h := keeps.run hstart ⟨as, hr⟩
  have hlevel := level_run hstart hr
  refine ⟨?_, ?_, h.rmmod_iff, fun hloaded => ?_, hlevel, fun f hf => ?_⟩
  · have hdata := h.data
    split at hdata
    · rename_i hloaded
      rw [if_pos hloaded]
      exact hdata.stacked
    · rename_i hnot
      rw [if_neg hnot]
      exact hdata
  · rw [h.refs, Nat.mul_comm]
    rfl
  · have hdata := h.data
    rw [if_pos hloaded] at hdata
    exact hdata.agree
  · obtain ⟨-, hgot⟩ | ⟨-, y, hgot⟩ := h.files f hf
    · rw [hgot]
      exact Nat.zero_le 1
    · rw [hgot]
      rfl

/-- A load that drives the GPIO low and fails then, and one that does not fail. -/
def failedFirst : List (Action InitEnv FileCall) :=
  [.insmod { allGood with cdev := -12 }, .insmod allGood, .openFile,
    .call 0 (.write (fun _ => 7) (text "on\n")), .call 0 (.read 8 true), .call 0 (.read 8 true)]

theorem mgpio_life_failed : ∃ s,
    exec (ModuleLife.step mgpio) (start (unloaded 1)) failedFirst = some s ∧
    s.refs = 2 ∧ s.data.board.gpioState = s.data.board.level ∧
    some ⟨3, [text "on\n"]⟩ ∈ s.files := by
  have hr : Run (ModuleLife.step mgpio) Any (start (unloaded 1)) failedFirst _ := exec_run rfl
  obtain ⟨-, hrefs, -, hagree, -⟩ := mgpio_life hr
  exact ⟨_, rfl, hrefs, hagree rfl, List.mem_cons_self⟩

end EmbeddedLinux.MgpioInteger
