import EmbeddedLinux.Lib.ModuleLife
import EmbeddedLinux.Lib.Registry
import EmbeddedLinux.MyDevice.Device

/-!
# The lives of the character device

`my_init` registers the device in four steps and takes back what it has registered when one of them
fails; `my_exit` takes back all of it.  The module is loaded and unloaded any number of times, and
in between files are opened on the device, read, written and closed, in any order.

In every state that is reached, what the module has registered is what it has not taken back, the
last first; and every open file has received a prefix of the greeting of its own
(`mydevice_life`).
-/

namespace EmbeddedLinux.MyDevice

open CString Buffer ModuleLife Piecewise Registry Transition

/-- `-ENOMEM` -/
def enomem : Int := -12

/-- What the driver registers with the kernel. -/
inductive Resource
  | region
  | cdev
  | deviceClass
  | node
  deriving DecidableEq

/-- The errors of the calls in `my_init`, 0 for a call that succeeds.  That of `device_create` is
not passed on. -/
structure InitEnv where
  region : Int
  cdev : Int
  deviceClass : Int
  node : Bool

structure Module where
  regs : Book Resource
  log : List Line

def Module.register (m : Module) (r : Resource) : Module := { m with regs := m.regs.acquire r }

/-- Takes back what has been registered, the last first. -/
def Module.undo (m : Module) (rs : List Resource) : Module :=
  { m with regs := m.regs.releaseAll rs }

def myInit (e : InitEnv) (m : Module) : Int × Module :=
  if e.region ≠ 0 then (e.region, m)
  else
    let m := m.register .region
    if e.cdev ≠ 0 then (e.cdev, m.undo [.region])
    else
      let m := m.register .cdev
      if e.deviceClass ≠ 0 then (e.deviceClass, m.undo [.cdev, .region])
      else
        let m := m.register .deviceClass
        if !e.node then (enomem, m.undo [.deviceClass, .cdev, .region])
        else (0, m.register .node)

def myExit (m : Module) : Module := m.undo [.node, .deviceClass, .cdev, .region]

/-- An open file: the offset, and what the program has read so far. -/
structure File where
  ppos : Int64
  got : List UInt8

/-- A call on an open file. -/
inductive FileCall
  | read (c : Call)
  /-- with what was in `kbuf` before -/
  | write (kbuf : Nat → Fin kbufSize → UInt8) (data : List UInt8)
  /-- a write from memory that cannot be read -/
  | writeFault

def fileCall (m : Module) (f : File) : FileCall → Module × File
  | .read c =>
    (m, { ppos := (myRead c f.ppos).2, got := f.got ++ (myRead c f.ppos).1.returned })
  | .write kbuf data => ({ m with log := (myWrite kbuf data m.log).2 }, f)
  | .writeFault => (m, f)

/-- `my_open` and `my_release` do nothing but print. -/
def mydevice : Driver Module File InitEnv FileCall where
  init := myInit
  exit := myExit
  call c m f := fileCall m f c
  newFile := { ppos := 0, got := [] }
  own := 0

/-! ### The conditions -/

/-- What is registered while the module is loaded, the last first. -/
def registered : List Resource := [.node, .deviceClass, .cdev, .region]

/-- The calls of `my_init`, in their order. -/
def InitEnv.calls (e : InitEnv) : List (Resource × Int) :=
  [(.region, e.region), (.cdev, e.cdev), (.deviceClass, e.deviceClass),
    (.node, if e.node then 0 else enomem)]

/-- `my_init` is all or nothing. -/
theorem myInit_eq (e : InitEnv) (m : Module) : myInit e m =
    ((m.regs.tryAll [] e.calls).1, { m with regs := (m.regs.tryAll [] e.calls).2 }) := by
  obtain ⟨region, cdev, deviceClass, node⟩ := e
  simp only [myInit, InitEnv.calls, Book.tryAll]
  by_cases hregion : region ≠ 0
  · simp only [if_pos hregion]
    rfl
  · simp only [if_neg hregion]
    by_cases hcdev : cdev ≠ 0
    · simp only [if_pos hcdev]
      rfl
    · simp only [if_neg hcdev]
      by_cases hclass : deviceClass ≠ 0
      · simp only [if_pos hclass]
        rfl
      · simp only [if_neg hclass]
        cases node with
        | true => rfl
        | false => rfl

/-- Every line of the log was terminated inside of `kbuf`, and `st` is registered. -/
structure Holds (st : List Resource) (m : Module) : Prop where
  stacked : m.regs.Stacked st
  inside : ∀ l ∈ m.log, l.Inside

/-- The program has the greeting up to the offset. -/
def Reads (f : File) : Prop :=
  f.ppos.toUInt64.toNat ≤ greet.length ∧ f.got = greet.take f.ppos.toUInt64.toNat

theorem Reads.read {f : File} (h : Reads f) (c : Call) :
    Reads { ppos := (myRead c f.ppos).2, got := f.got ++ (myRead c f.ppos).1.returned } := by
  obtain ⟨hle, hgot⟩ := h
  have hserves := myRead_serves c hle
  refine ⟨(hserves.offset hle).2, ?_⟩
  show f.got ++ _ = _
  rw [hgot]
  exact hserves.take_append

/-- The terminator of a write, whatever the data. -/
theorem myWrite_inside (kbuf : Nat → Fin kbufSize → UInt8) (data : List UInt8) {log : List Line}
    (h : ∀ l ∈ log, l.Inside) : ∀ l ∈ (myWrite kbuf data log).2, l.Inside := by
  have hlen : (data.take (min data.length 255)).length = min data.length 255 := by
    rw [List.length_take]
    omega
  have hlt : (data.take (min data.length 255)).length < (List.ofFn (kbuf log.length)).length := by
    rw [hlen, List.length_ofFn]
    simp only [kbufSize]
    omega
  obtain ⟨x, r, hr⟩ := drop_eq_cons hlt
  have hstore := store_append (data.take (min data.length 255)) r x 0
  rw [hlen] at hstore
  intro l hl
  unfold myWrite at hl
  simp only [toCopy_eq, copyIn_of_le (Nat.le_of_lt hlt), hr, Option.bind_some, hstore] at hl
  rcases List.mem_append.1 hl with hl | hl
  · exact h l hl
  · rw [List.mem_singleton.1 hl]
    refine ⟨_, rfl, ?_⟩
    have hrest := congrArg List.length hr
    rw [List.length_drop, List.length_ofFn, List.length_cons] at hrest
    rw [List.length_append, List.length_cons]
    omega

theorem keeps : Keeps mydevice (Holds []) (Holds registered) Reads := by
  refine ⟨fun e m h => ?_, fun m h => ?_, fun c m f h hf => ?_, by decide, rfl⟩
  · have hnodup : (e.calls.map Prod.fst).Nodup :=
      show [Resource.region, .cdev, .deviceClass, .node].Nodup by decide
    have hall := Book.Stacked.tryAll [] h.stacked hnodup (fun _ _ hmem => by cases hmem)
    show if (myInit e m).1 = 0 then Holds registered (myInit e m).2 else Holds [] (myInit e m).2
    rw [myInit_eq]
    split
    · rename_i hret
      rw [if_pos hret] at hall
      exact ⟨hall, h.inside⟩
    · rename_i hret
      rw [if_neg hret] at hall
      exact ⟨hall, h.inside⟩
  · exact ⟨h.stacked.releaseAll registered, h.inside⟩
  · cases c with
    | read c => exact ⟨h, hf.read c⟩
    | write kbuf data => exact ⟨⟨h.stacked, myWrite_inside kbuf data h.inside⟩, hf⟩
    | writeFault => exact ⟨h, hf⟩

/-! ### The main result -/

/-- **The lives of the device.**  Whatever fails in `my_init`, and however files are opened, used
and closed: what has been registered and not taken back is all of it while the module is loaded,
nothing while it is not, and is taken back in the opposite order; the module can be unloaded exactly
when no file is open; no call stores outside of `kbuf`; and an open file has received the greeting
up to its own offset, whatever is done with the others. -/
theorem mydevice_life {s : ModuleLife.State Module File}
    (hr : Reachable (step mydevice) Any (start { regs := .blank, log := [] }) s) :
    s.data.regs.Stacked (if s.loaded = true then registered else []) ∧
    (s.loaded = true → ((step mydevice s .rmmod).isSome = true ↔ ∀ f ∈ s.files, f = none)) ∧
    (∀ l ∈ s.data.log, l.Inside) ∧
    ∀ f, some f ∈ s.files → f.got = greet.take f.ppos.toUInt64.toNat := by
  have h := keeps.run ⟨Book.stacked_blank, fun l hl => by cases hl⟩ hr
  have hdata := h.data
  refine ⟨?_, h.rmmod_iff, ?_, fun f hf => (h.files f hf).2⟩
  · split
    · rename_i hloaded
      rw [if_pos hloaded] at hdata
      exact hdata.stacked
    · rename_i hnot
      rw [if_neg hnot] at hdata
      exact hdata.stacked
  · split at hdata
    · exact hdata.inside
    · exact hdata.inside

/-- Calls of `my_init` that all succeed. -/
def allGood : InitEnv := { region := 0, cdev := 0, deviceClass := 0, node := true }

/-- A load that fails, one that does not, and two files that are read in turn. -/
theorem mydevice_life_twice : ∃ s, exec (step mydevice) (start { regs := .blank, log := [] })
      [.insmod { allGood with deviceClass := -12 }, .insmod allGood, .openFile, .openFile,
        .call 0 (.read ⟨6, 6⟩), .call 1 (.read ⟨5, 5⟩), .call 0 (.read ⟨5, 5⟩)] = some s ∧
    s.data.regs.Stacked registered ∧ some ⟨11, text "Hello from "⟩ ∈ s.files := by
  have hr : Reachable (step mydevice) Any (start { regs := .blank, log := [] }) _ :=
    ⟨[.insmod { allGood with deviceClass := -12 }, .insmod allGood, .openFile, .openFile,
      .call 0 (.read ⟨6, 6⟩), .call 1 (.read ⟨5, 5⟩), .call 0 (.read ⟨5, 5⟩)], exec_run rfl⟩
  exact ⟨_, rfl, (mydevice_life hr).1, List.mem_cons_self⟩

end EmbeddedLinux.MyDevice
