import EmbeddedLinux.Lib.Registry

/-!
# Loading and unloading the descriptor driver

`mgpio_init` registers the platform driver and, with `use_lookup`, a platform device of its own.
`use_lookup` may be changed through sysfs while the module is loaded, and `mgpio_exit` tests it
again: a device that was registered stays behind when `use_lookup` has been cleared in the
meantime.  That is all that can go wrong (`unload_undoes_load`).
-/

namespace EmbeddedLinux.MgpioDesc

open Registry

/-- What the module registers itself. -/
inductive Own
  | driver
  | device
  deriving DecidableEq

/-- `pdev_self` -/
inductive DevicePtr
  | null
  | err (errno : Int)
  | device

/-- `pdev_self && !IS_ERR(pdev_self)` -/
def DevicePtr.isDevice : DevicePtr → Bool
  | .device => true
  | _ => false

/-- The static data of the module, and what is registered with the kernel. -/
structure Module where
  useLookup : Bool
  pdevSelf : DevicePtr
  regs : Book Own

/-- The errors of the calls in `mgpio_init`, 0 for a call that succeeds. -/
structure InitEnv where
  driver : Int
  device : Int

/-- The module with this value of the parameter, before `mgpio_init`. -/
def inserted (useLookup : Bool) : Module where
  useLookup := useLookup
  pdevSelf := .null
  regs := { held := fun _ => false, log := [] }

/-- `mgpio_init`: what it returns, and the module after it. -/
def mgpioInit (s : Module) (e : InitEnv) : Int × Module :=
  if e.driver ≠ 0 then (e.driver, s)
  else
    let s := { s with regs := s.regs.acquire .driver }
    if s.useLookup then
      if e.device ≠ 0 then
        (e.device, { s with pdevSelf := .err e.device, regs := s.regs.release .driver })
      else (0, { s with pdevSelf := .device, regs := s.regs.acquire .device })
    else (0, s)

/-- A new value of the parameter is written to sysfs. -/
def setUseLookup (s : Module) (x : Bool) : Module := { s with useLookup := x }

def mgpioExit (s : Module) : Module :=
  let s :=
    if s.useLookup && s.pdevSelf.isDevice then { s with regs := s.regs.release .device } else s
  { s with regs := s.regs.release .driver }

/-- The module when `mgpio_exit` is called. -/
def atExit (s : Module) (changes : List Bool) : Module := changes.foldl setUseLookup s

/-- The parameter then. -/
def lastValue (useLookup : Bool) (changes : List Bool) : Bool := changes.getLastD useLookup

/-- What `mgpio_init` has registered and `mgpio_exit` has unregistered, in this order. -/
structure Undone (before loaded exited : Book Own) : Prop where
  once : (Book.releasedSince loaded exited).count .device =
    if Own.device ∈ Book.acquiredSince before loaded then 1 else 0
  order : Own.device ∈ Book.releasedSince loaded exited →
    (Book.releasedSince loaded exited).idxOf .device <
      (Book.releasedSince loaded exited).idxOf .driver

variable {u : Bool} {e : InitEnv} {s : Module}

/-! ### The functions -/

/-- What a successful `mgpio_init` registers. -/
theorem mgpioInit_spec (h : (mgpioInit (inserted u) e).1 = 0) :
    let s := (mgpioInit (inserted u) e).2
    s.regs = (inserted u).regs.acquireAll (if u then [.driver, .device] else [.driver]) ∧
      s.useLookup = u ∧ s.pdevSelf.isDevice = u := by
  unfold mgpioInit at h ⊢
  by_cases hdriver : e.driver = 0
  · rw [if_neg (not_not.2 hdriver)] at h ⊢
    cases u with
    | false => exact ⟨rfl, rfl, rfl⟩
    | true =>
      by_cases hdevice : e.device = 0
      · simp only [inserted, if_true, if_neg (not_not.2 hdevice)]
        exact ⟨rfl, trivial, rfl⟩
      · simp only [inserted, if_true, if_pos hdevice] at h
        exact absurd h hdevice
  · rw [if_pos hdriver] at h
    exact absurd h hdriver

/-- The changes reach the parameter only. -/
theorem atExit_eq (s : Module) (changes : List Bool) :
    atExit s changes = { s with useLookup := lastValue s.useLookup changes } := by
  induction changes generalizing s with
  | nil => rfl
  | cons x changes ih =>
    rw [atExit, List.foldl_cons, ← atExit, ih, lastValue, lastValue, List.getLastD_cons]
    rfl

theorem mgpioExit_regs (s : Module) : (mgpioExit s).regs =
    s.regs.releaseAll
      (if s.useLookup && s.pdevSelf.isDevice then [.device, .driver] else [.driver]) := by
  unfold mgpioExit
  cases hdevice : s.useLookup && s.pdevSelf.isDevice with
  | false => rfl
  | true => rfl

/-! ### The main result -/

/-- **Unload undoes load**, exactly when `use_lookup` is not cleared between. -/
theorem unload_undoes_load (h : (mgpioInit (inserted u) e).1 = 0) (changes : List Bool) :
    let s := (mgpioInit (inserted u) e).2
    Undone (inserted u).regs s.regs (mgpioExit (atExit s changes)).regs ↔
      (u = true → lastValue u changes = true) := by
  obtain ⟨hregs, hparam, hdevice⟩ := mgpioInit_spec h
  simp only
  rw [mgpioExit_regs, atExit_eq]
  simp only [hparam, hdevice]
  have hacquired := Book.acquiredSince_acquireAll (inserted u).regs
    (if u then [.driver, .device] else [Own.driver])
  have hreleased := Book.releasedSince_releaseAll (mgpioInit (inserted u) e).2.regs
    (if lastValue u changes && u then [.device, .driver] else [Own.driver])
  rw [← hregs] at hacquired
  constructor
  · rintro ⟨honce, -⟩ rfl
    rw [hacquired, hreleased] at honce
    cases hlast : lastValue true changes with
    | true => rfl
    | false =>
      rw [hlast] at honce
      exact absurd honce (by decide)
  · intro hlast
    constructor <;> rw [hreleased]
    · rw [hacquired]
      cases u with
      | false =>
        rw [Bool.and_false]
        decide
      | true =>
        rw [hlast rfl]
        decide
    · cases u with
      | false =>
        rw [Bool.and_false]
        decide
      | true =>
        rw [hlast rfl]
        decide

/-- Cleared and set again. -/
theorem unload_undoes_load_set :
    let s := (mgpioInit (inserted true) ⟨0, 0⟩).2
    Undone (inserted true).regs s.regs (mgpioExit (atExit s [false, true])).regs :=
  (unload_undoes_load rfl [false, true]).2 (fun _ => rfl)

/-- The device stays behind. -/
theorem device_stays_behind :
    let s := (mgpioInit (inserted true) ⟨0, 0⟩).2
    (mgpioInit (inserted true) ⟨0, 0⟩).1 = 0 ∧
      ¬ Undone (inserted true).regs s.regs (mgpioExit (atExit s [false])).regs ∧
      (mgpioExit (atExit s [false])).regs.held .device = true := by
  refine ⟨rfl, fun h => ?_, by decide⟩
  exact absurd h.once (by decide)

end EmbeddedLinux.MgpioDesc
