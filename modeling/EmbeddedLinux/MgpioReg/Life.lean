import EmbeddedLinux.Lib.ModuleLife
import EmbeddedLinux.MgpioReg.Command

/-!
# The lives of the register driver

The module is loaded, used through any number of open files, and unloaded again, any number of
times, with calls that fail in any of the loads.  The calls come one after the other; what happens
when they interleave is in `MgpioReg.Ready`.

Over all of this the pin does what a pin with a memory would do (`pinAfter`): it takes the level of
each command, is driven low by each unloading, and by nothing else; and the rest of the
controller stays as it was (`gpio27_life`).
-/

namespace EmbeddedLinux.MgpioReg

open CString ModuleLife Registry Transition

/-- `mgpio_open` and `mgpio_release` do nothing. -/
def mgpio : Driver Board Unit InitEnv Call where
  init e b := mgpioInit b e
  exit := mgpioExit
  call c b f := ({ b with gpio := (mgpioWrite c b.gpio).2 }, f)
  newFile := ()
  own := 0

/-- The level of the pin after an action. -/
def pinAfter (x : Bool) : Action InitEnv Call → Bool
  | .call _ c => c.accepted.getD x
  | .rmmod => false
  | .insmod _ | .openFile | .closeFile _ => x

/-- What is registered while the module is loaded, the last first. -/
def registered : List Resource := [.node, .deviceClass, .cdev, .region, .mapping]

/-- The calls of `mgpio_init`, in their order. -/
def InitEnv.calls (e : InitEnv) : List (Resource × Int) :=
  [(.mapping, if e.mapped then 0 else enomem), (.region, e.region), (.cdev, e.cdev),
    (.deviceClass, e.deviceClass), (.node, e.node)]

/-- `mgpio_init` is all or nothing, and configures the pin when it is all. -/
theorem mgpioInit_eq (b : Board) (e : InitEnv) :
    (mgpioInit b e).1 = (b.regs.tryAll [] e.calls).1 ∧
    (mgpioInit b e).2.regs = (b.regs.tryAll [] e.calls).2 ∧
    (mgpioInit b e).2.gpio =
      if (mgpioInit b e).1 = 0 then gpio27AsOutput b.gpio else b.gpio := by
  obtain ⟨mapped, region, cdev, deviceClass, node⟩ := e
  simp only [mgpioInit, InitEnv.calls, Book.tryAll]
  cases mapped with
  | false => exact ⟨rfl, rfl, rfl⟩
  | true =>
    by_cases hregion : region ≠ 0
    · simp only [if_pos hregion]
      exact ⟨rfl, rfl, (if_neg hregion).symm⟩
    · simp only [if_neg hregion]
      by_cases hcdev : cdev ≠ 0
      · simp only [if_pos hcdev]
        exact ⟨rfl, rfl, (if_neg hcdev).symm⟩
      · simp only [if_neg hcdev]
        by_cases hclass : deviceClass ≠ 0
        · simp only [if_pos hclass]
          exact ⟨rfl, rfl, (if_neg hclass).symm⟩
        · simp only [if_neg hclass]
          by_cases hnode : node ≠ 0
          · simp only [if_pos hnode]
            exact ⟨rfl, rfl, (if_neg hnode).symm⟩
          · simp only [if_neg hnode]
            exact ⟨rfl, rfl, rfl⟩

/-- The board while the resources `st` are registered, when `g` was the controller at first. -/
structure Holds (g : Gpio) (st : List Resource) (b : Board) : Prop where
  stacked : b.regs.Stacked st
  elsewhere : SameElsewhere g b.gpio

/-- While the module is loaded the pin is an output. -/
def HoldsLoaded (g : Gpio) (b : Board) : Prop := Holds g registered b ∧ IsOutput b.gpio

variable {g : Gpio}

/-- A write changes nothing but the level of the pin. -/
theorem mgpioWrite_frame (c : Call) (g : Gpio) : SameElsewhere g (mgpioWrite c g).2 ∧
    (mgpioWrite c g).2.gpfsel2 = g.gpfsel2 ∧
      (mgpioWrite c g).2.level gpioNum = c.accepted.getD (g.level gpioNum) := by
  have hspec := mgpioWrite_spec c g
  cases hc : c.accepted with
  | none =>
    rw [hc] at hspec
    rw [hspec.2]
    exact ⟨.refl g, rfl, rfl⟩
  | some x =>
    rw [hc] at hspec
    rw [hspec.2]
    exact drive_spec x g

theorem keeps (g : Gpio) : Keeps mgpio (Holds g []) (HoldsLoaded g) (fun _ => True) := by
  refine ⟨fun e b h => ?_, fun b h => ?_, fun c b f h hf => ?_, trivial⟩
  · have hnodup : (e.calls.map Prod.fst).Nodup :=
      show [Resource.mapping, .region, .cdev, .deviceClass, .node].Nodup by decide
    have hall := Book.Stacked.tryAll [] h.stacked hnodup (fun _ _ hmem => by cases hmem)
    obtain ⟨hret, hregs, hgpio⟩ := mgpioInit_eq b e
    rw [← hret, ← hregs] at hall
    show if (mgpioInit b e).1 = 0 then HoldsLoaded g (mgpioInit b e).2
      else Holds g [] (mgpioInit b e).2
    split
    · rename_i h0
      rw [if_pos h0] at hall hgpio
      refine ⟨⟨hall, ?_⟩, ?_⟩
      · rw [hgpio]
        exact h.elsewhere.trans (sameElsewhere_asOutput b.gpio)
      · rw [hgpio]
        exact isOutput_asOutput b.gpio
    · rename_i h0
      rw [if_neg h0] at hall hgpio
      refine ⟨hall, ?_⟩
      rw [hgpio]
      exact h.elsewhere
  · exact ⟨h.1.stacked.releaseAll registered,
      h.1.elsewhere.trans (sameElsewhere_off b.gpio)⟩
  · obtain ⟨helse, hsel, -⟩ := mgpioWrite_frame c b.gpio
    refine ⟨⟨⟨h.1.stacked, h.1.elsewhere.trans helse⟩, ?_⟩, trivial⟩
    show (mgpioWrite c b.gpio).2.gpfsel2 >>> _ &&& _ = _
    rw [hsel]
    exact h.2

/-- **The pin in one step.** -/
theorem level_step {s t : ModuleLife.State Board Unit} {a : Action InitEnv Call}
    (hn : step mgpio s a = some t) :
    t.data.gpio.level gpioNum = pinAfter (s.data.gpio.level gpioNum) a := by
  cases a with
  | insmod e =>
    obtain ⟨-, ht⟩ := Option.ite_none_left_eq_some.1 hn
    cases ht
    show (mgpioInit s.data e).2.gpio.level gpioNum = _
    rw [(mgpioInit_eq s.data e).2.2]
    split
    · rfl
    · rfl
  | rmmod =>
    obtain ⟨-, ht⟩ := Option.ite_none_right_eq_some.1 hn
    cases ht
    exact (drive_spec false s.data.gpio).2.2
  | openFile =>
    obtain ⟨-, ht⟩ := Option.ite_none_right_eq_some.1 hn
    cases ht
    rfl
  | closeFile i =>
    obtain ⟨f, -, rfl⟩ := Option.map_eq_some_iff.1 hn
    rfl
  | call i c =>
    obtain ⟨f, -, rfl⟩ := Option.map_eq_some_iff.1 hn
    exact (mgpioWrite_frame c s.data.gpio).2.2

/-- And in a run. -/
theorem level_run {b : Board} {s : ModuleLife.State Board Unit} {as : List (Action InitEnv Call)}
    (hr : Run (step mgpio) Any (start b) as s) :
    s.data.gpio.level gpioNum = as.foldl pinAfter (b.gpio.level gpioNum) := by
  induction hr with
  | nil => rfl
  | snoc _ _ hn ih => rw [level_step hn, ih, List.foldl_append, List.foldl_cons, List.foldl_nil]

/-- **The lives of the register driver.**  Whatever fails in `mgpio_init`, and however the device is
used: what has been registered and not taken back is all of it while the module is loaded,
nothing while it is not, and is taken back in the opposite order; the module can be unloaded exactly
when no file is open; no other pin has changed its function or level; the pin is an output while the
module is loaded; and its level is that of the last command or unloading. -/
theorem gpio27_life {s : ModuleLife.State Board Unit} {as : List (Action InitEnv Call)}
    (hr : Run (step mgpio) Any (start { gpio := g, regs := .blank }) as s) :
    s.data.regs.Stacked (if s.loaded = true then registered else []) ∧
    (s.loaded = true → ((step mgpio s .rmmod).isSome = true ↔ ∀ f ∈ s.files, f = none)) ∧
    SameElsewhere g s.data.gpio ∧ (s.loaded = true → IsOutput s.data.gpio) ∧
    s.data.gpio.level gpioNum = as.foldl pinAfter (g.level gpioNum) := by
  have hstart : Holds g [] { gpio := g, regs := .blank } := ⟨Book.stacked_blank, .refl g⟩
  have h := (keeps g).run hstart ⟨as, hr⟩
  have hlevel := level_run hr
  refine ⟨?_, h.rmmod_iff, ?_, fun hloaded => ?_, hlevel⟩
  · have hdata := h.data
    split at hdata
    · rename_i hloaded
      rw [if_pos hloaded]
      exact hdata.1.stacked
    · rename_i hnot
      rw [if_neg hnot]
      exact hdata.stacked
  · have hdata := h.data
    split at hdata
    · exact hdata.1.elsewhere
    · exact hdata.elsewhere
  · have hdata := h.data
    rw [if_pos hloaded] at hdata
    exact hdata.2

/-- The pin is switched on, the module is unloaded, and the next load fails. -/
def onAndUnloaded : List (Action InitEnv Call) :=
  [.insmod allGood, .openFile, .call 0 (.of (text "on\n")), .closeFile 0, .rmmod,
    .insmod { allGood with node := -12 }]

theorem gpio27_life_unloaded : ∃ s,
    exec (step mgpio) (start { gpio := bareBoard.gpio, regs := .blank }) onAndUnloaded = some s ∧
    s.data.regs.Stacked [] ∧
    s.data.gpio.level gpioNum = onAndUnloaded.foldl pinAfter (bareBoard.gpio.level gpioNum) := by
  have hr : Run (step mgpio) Any (start { gpio := bareBoard.gpio, regs := .blank })
      onAndUnloaded _ := exec_run rfl
  obtain ⟨hstacked, -, -, -, hlevel⟩ := gpio27_life hr
  exact ⟨_, rfl, hstacked, hlevel⟩

end EmbeddedLinux.MgpioReg
