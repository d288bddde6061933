import EmbeddedLinux.Lib.KString
import EmbeddedLinux.Lib.Registry

/-!
# The register driver

The driver maps the GPIO controller and writes its registers itself.  `mgpio_init` makes pin 27 an
output by changing three bits of GPFSEL2; `mgpio_write` drives the pin through GPSET0 and GPCLR0,
where a 1 sets or clears its pin and a 0 leaves it alone; `mgpio_exit` drives it low.  What the
driver prints to the kernel log is left out.

Whatever is written to the device, the driver touches nothing else on the controller
(`touches_only_gpio27`).
-/

namespace EmbeddedLinux.MgpioReg

open CString KString Registry

/-- `-ENOMEM`, `-EFAULT` and `-EINVAL` -/
def enomem : Int := -12
def efault : Int := -14
def einval : Int := -22

/-! ### The registers -/

/-- The registers that the driver uses, at the offsets 0x08, 0x1C and 0x28. -/
inductive Reg
  | gpfsel2
  | gpset0
  | gpclr0

/-- What the controller holds: the function select of the pins 20 to 29, and the output levels of
the pins 0 to 31. -/
structure Gpio where
  gpfsel2 : BitVec 32
  levels : BitVec 32

/-- `writel` -/
def writel (val : BitVec 32) (r : Reg) (g : Gpio) : Gpio :=
  match r with
  | .gpfsel2 => { g with gpfsel2 := val }
  | .gpset0 => { g with levels := g.levels ||| val }
  | .gpclr0 => { g with levels := g.levels &&& ~~~val }

abbrev gpioNum : Nat := 27

abbrev gpfsel27Shift : Nat := 21

/-- `BIT(GPIO_NUM)` -/
def gpioBit : BitVec 32 := BitVec.twoPow 32 gpioNum

/-- What `gpio27_as_output` makes of the value that it has read. -/
def selectOutput (val : BitVec 32) : BitVec 32 :=
  val &&& ~~~(0x7#32 <<< gpfsel27Shift) ||| 0x1#32 <<< gpfsel27Shift

def gpio27AsOutput (g : Gpio) : Gpio := writel (selectOutput g.gpfsel2) .gpfsel2 g

def gpio27On (g : Gpio) : Gpio := writel gpioBit .gpset0 g

def gpio27Off (g : Gpio) : Gpio := writel gpioBit .gpclr0 g

/-- Bits 21 to 23 of GPFSEL2 select the function of GPIO27, and 001 is an output. -/
def IsOutput (g : Gpio) : Prop := g.gpfsel2 >>> gpfsel27Shift &&& 0x7#32 = 0x1#32

instance (g : Gpio) : Decidable (IsOutput g) :=
  inferInstanceAs (Decidable (g.gpfsel2 >>> gpfsel27Shift &&& 0x7#32 = 0x1#32))

/-- The level of a pin. -/
def Gpio.level (g : Gpio) (pin : Nat) : Bool := g.levels.getLsbD pin

/-- The two controllers have the same levels and functions at all pins but GPIO27. -/
structure SameElsewhere (g g' : Gpio) : Prop where
  select : ∀ i, ¬ (21 ≤ i ∧ i ≤ 23) → g'.gpfsel2.getLsbD i = g.gpfsel2.getLsbD i
  level : ∀ pin, pin ≠ gpioNum → g'.level pin = g.level pin

variable {g g' g'' : Gpio}

theorem SameElsewhere.refl (g : Gpio) : SameElsewhere g g := ⟨fun _ _ => rfl, fun _ _ => rfl⟩

theorem SameElsewhere.trans (h : SameElsewhere g g') (h' : SameElsewhere g' g'') :
    SameElsewhere g g'' :=
  ⟨fun i hi => (h'.select i hi).trans (h.select i hi),
    fun pin hpin => (h'.level pin hpin).trans (h.level pin hpin)⟩

/-- The mask is 1 at the three bits, and the function is 0 elsewhere. -/
theorem getLsbD_mask : ∀ i : Fin 32, ¬ (21 ≤ i.val ∧ i.val ≤ 23) →
    (0x7#32 <<< gpfsel27Shift).getLsbD i = false ∧
      (0x1#32 <<< gpfsel27Shift).getLsbD i = false := by
  decide

/-- The bits of the other pins stay. -/
theorem getLsbD_selectOutput (val : BitVec 32) {i : Nat} (hi : ¬ (21 ≤ i ∧ i ≤ 23)) :
    (selectOutput val).getLsbD i = val.getLsbD i := by
  by_cases hlt : i < 32
  · obtain ⟨hmask, hfun⟩ := getLsbD_mask ⟨i, hlt⟩ hi
    simp only at hmask hfun
    rw [selectOutput, BitVec.getLsbD_or, BitVec.getLsbD_and, BitVec.getLsbD_not, hmask, hfun]
    simp [hlt]
  · rw [BitVec.getLsbD_of_ge _ _ (by omega), BitVec.getLsbD_of_ge _ _ (by omega)]

theorem getLsbD_one_of_not : ∀ i : Fin 32, (0x7#32).getLsbD i.val = false →
    (0x1#32).getLsbD i.val = false := by
  decide

/-- Below the mask stands the function. -/
theorem getLsbD_field : ∀ i : Fin 32, (0x7#32).getLsbD i.val = true →
    (0x7#32 <<< gpfsel27Shift).getLsbD (gpfsel27Shift + i.val) = true ∧
      (0x1#32 <<< gpfsel27Shift).getLsbD (gpfsel27Shift + i.val) = (0x1#32).getLsbD i.val := by
  decide

theorem isOutput_asOutput (g : Gpio) : IsOutput (gpio27AsOutput g) := by
  apply BitVec.eq_of_getLsbD_eq
  intro i hi
  rw [BitVec.getLsbD_and, BitVec.getLsbD_ushiftRight]
  cases hin : (0x7#32).getLsbD i with
  | true =>
    obtain ⟨hmask, hfun⟩ := getLsbD_field ⟨i, hi⟩ hin
    show ((selectOutput g.gpfsel2).getLsbD (gpfsel27Shift + i) && true) = _
    simp only at hmask hfun
    rw [selectOutput, BitVec.getLsbD_or, BitVec.getLsbD_and, BitVec.getLsbD_not, hmask, hfun]
    simp
  | false =>
    rw [Bool.and_false]
    exact (getLsbD_one_of_not ⟨i, hi⟩ hin).symm

theorem sameElsewhere_asOutput (g : Gpio) : SameElsewhere g (gpio27AsOutput g) :=
  ⟨fun _ hi => getLsbD_selectOutput g.gpfsel2 hi, fun _ _ => rfl⟩

theorem getLsbD_gpioBit (pin : Nat) : gpioBit.getLsbD pin = decide (gpioNum = pin) := by
  rw [gpioBit, BitVec.getLsbD_twoPow]
  rfl

theorem level_on (g : Gpio) (pin : Nat) :
    (gpio27On g).level pin = (g.level pin || decide (gpioNum = pin)) := by
  rw [← getLsbD_gpioBit]
  exact BitVec.getLsbD_or

theorem level_off (g : Gpio) (pin : Nat) :
    (gpio27Off g).level pin = (g.level pin && !decide (gpioNum = pin)) := by
  by_cases hlt : pin < 32
  · rw [← getLsbD_gpioBit]
    show (g.levels &&& ~~~gpioBit).getLsbD pin = _
    rw [BitVec.getLsbD_and, BitVec.getLsbD_not, decide_eq_true hlt, Bool.true_and]
    rfl
  · rw [Gpio.level, Gpio.level, BitVec.getLsbD_of_ge _ _ (by omega),
      BitVec.getLsbD_of_ge _ _ (by omega), Bool.false_and]

/-! ### Loading and unloading the module -/

/-- What the driver registers with the kernel. -/
inductive Resource
  | mapping
  | region
  | cdev
  | deviceClass
  | node
  deriving DecidableEq

/-- The errors of the calls in `mgpio_init`, 0 for a call that succeeds. -/
structure InitEnv where
  mapped : Bool
  region : Int
  cdev : Int
  deviceClass : Int
  node : Int

structure Board where
  gpio : Gpio
  regs : Book Resource

/-- Takes back what has been registered, the last first. -/
def Board.undo (b : Board) (rs : List Resource) : Board := { b with regs := b.regs.releaseAll rs }

def Board.register (b : Board) (r : Resource) : Board := { b with regs := b.regs.acquire r }

/-- `mgpio_init`: what it returns, and the board after it. -/
def mgpioInit (b : Board) (e : InitEnv) : Int × Board :=
  if !e.mapped then (enomem, b)
  else
    let b := b.register .mapping
    if e.region ≠ 0 then (e.region, b.undo [.mapping])
    else
      let b := b.register .region
      if e.cdev ≠ 0 then (e.cdev, b.undo [.region, .mapping])
      else
        let b := b.register .cdev
        if e.deviceClass ≠ 0 then (e.deviceClass, b.undo [.cdev, .region, .mapping])
        else
          let b := b.register .deviceClass
          if e.node ≠ 0 then (e.node, b.undo [.deviceClass, .cdev, .region, .mapping])
          else
            let b := b.register .node
            (0, { b with gpio := gpio27AsOutput b.gpio })

def mgpioExit (b : Board) : Board :=
  { b with gpio := gpio27Off b.gpio }.undo [.node, .deviceClass, .cdev, .region, .mapping]

/-- A module that is loaded has made GPIO27 an output, and has changed nothing else on the
controller. -/
theorem mgpioInit_gpio {b : Board} {e : InitEnv} (h : (mgpioInit b e).1 = 0) :
    (mgpioInit b e).2.gpio = gpio27AsOutput b.gpio := by
  simp only [mgpioInit] at h ⊢
  split
  · rename_i hmapped
    rw [if_pos hmapped] at h
    cases h
  · rename_i hmapped
    rw [if_neg hmapped] at h
    repeat' split at h
    · rename_i hregion
      exact absurd h hregion
    · rename_i hcdev
      exact absurd h hcdev
    · rename_i hclass
      exact absurd h hclass
    · rename_i hnode
      exact absurd h hnode
    · simp only [*, if_false]
      rfl

/-! ### A write -/

/-- `sizeof(kbuf)` -/
abbrev kbufSize : Nat := 16

/-- A call of `mgpio_write`: the length, and the bytes at the address `ubuf`, `none` where the
user's memory cannot be read. -/
structure Call where
  len : Nat
  ubuf : Nat → Option UInt8

/-- `copy_from_user(kbuf, ubuf, n)`: the bytes, or `none` for a fault. -/
def copyFromUser (ubuf : Nat → Option UInt8) (n : Nat) : Option (List UInt8) :=
  (List.range n).mapM ubuf

/-- The command in `kbuf`: the level that is asked for, if the command is known. -/
def command (kbuf : List UInt8) : Option Bool :=
  -- the address that `strim` returns is not used, so spaces at the start stay
  let kbuf := (strim kbuf).map toLower
  if strcmp kbuf (text "on") then some true
  else if strcmp kbuf (text "off") then some false
  else none

/-- What a command does to the pin. -/
def drive (x : Bool) (g : Gpio) : Gpio := if x then gpio27On g else gpio27Off g

/-- `mgpio_write`: what it returns, and the controller after it. -/
def mgpioWrite (c : Call) (g : Gpio) : Int × Gpio :=
  let n := min c.len (kbufSize - 1)
  if n = 0 then (0, g)
  else
    match copyFromUser c.ubuf n with
    | none => (efault, g)
    | some kbuf =>
      match command (kbuf ++ [0]) with
      | some x => (c.len, drive x g)
      | none => (einval, g)

/-- One call after the other. -/
def mgpioWrites (cs : List Call) (g : Gpio) : Gpio := cs.foldl (fun g c => (mgpioWrite c g).2) g

/-- The command that a call carries out. -/
def Call.accepted (c : Call) : Option Bool :=
  (copyFromUser c.ubuf (min c.len (kbufSize - 1))).bind (fun kbuf => command (kbuf ++ [0]))

/-- The level after the last command that was carried out, `x` if there was none. -/
def lastAccepted (cs : List Call) (x : Bool) : Bool :=
  (cs.filterMap Call.accepted).getLast?.getD x

/-- **One write.**  A call with a command returns its length and drives the pin; any other
returns no positive number and writes no register. -/
theorem mgpioWrite_spec (c : Call) (g : Gpio) :
    match c.accepted with
    | some x => (mgpioWrite c g).1 = c.len ∧ (mgpioWrite c g).2 = drive x g
    | none => (mgpioWrite c g).1 ≤ 0 ∧ (mgpioWrite c g).2 = g := by
  unfold mgpioWrite Call.accepted
  by_cases hn : min c.len (kbufSize - 1) = 0
  · rw [hn]
    exact ⟨le_refl _, rfl⟩
  · simp only [if_neg hn]
    cases copyFromUser c.ubuf (min c.len (kbufSize - 1)) with
    | none => exact ⟨show efault ≤ 0 by decide, rfl⟩
    | some kbuf =>
      simp only [Option.bind_some]
      cases command (kbuf ++ [0]) with
      | none => exact ⟨show einval ≤ 0 by decide, rfl⟩
      | some x => exact ⟨rfl, rfl⟩

/-- The program can tell from what a call returns. -/
theorem ret_eq_len_iff (c : Call) (g : Gpio) :
    c.accepted ≠ none ↔ 0 < c.len ∧ (mgpioWrite c g).1 = c.len := by
  have hspec := mgpioWrite_spec c g
  cases hc : c.accepted with
  | none =>
    rw [hc] at hspec
    refine iff_of_false (fun h => h rfl) ?_
    rintro ⟨hlen, hret⟩
    omega
  | some x =>
    rw [hc] at hspec
    refine iff_of_true (fun h => by cases h) ⟨Nat.pos_of_ne_zero fun h0 => ?_, hspec.1⟩
    -- a call without data finds no command
    have hnone : command (([] : List UInt8) ++ [0]) = none := by decide
    rw [Call.accepted, h0, Nat.zero_min] at hc
    exact absurd (hnone.symm.trans hc) (by simp)

theorem sameElsewhere_on (g : Gpio) : SameElsewhere g (gpio27On g) :=
  ⟨fun _ _ => rfl, fun pin hpin => by rw [level_on, decide_eq_false hpin.symm, Bool.or_false]⟩

theorem sameElsewhere_off (g : Gpio) : SameElsewhere g (gpio27Off g) :=
  ⟨fun _ _ => rfl, fun pin hpin => by
    rw [level_off, decide_eq_false hpin.symm, Bool.not_false, Bool.and_true]⟩

theorem drive_spec (x : Bool) (g : Gpio) :
    SameElsewhere g (drive x g) ∧ (drive x g).gpfsel2 = g.gpfsel2 ∧
      (drive x g).level gpioNum = x := by
  cases x with
  | true =>
    refine ⟨sameElsewhere_on g, rfl, ?_⟩
    show (gpio27On g).level gpioNum = true
    rw [level_on, decide_eq_true rfl, Bool.or_true]
  | false =>
    refine ⟨sameElsewhere_off g, rfl, ?_⟩
    show (gpio27Off g).level gpioNum = false
    rw [level_off, decide_eq_true rfl, Bool.not_true, Bool.and_false]

/-- **All writes.** -/
theorem mgpioWrites_spec (cs : List Call) (g : Gpio) :
    SameElsewhere g (mgpioWrites cs g) ∧ (mgpioWrites cs g).gpfsel2 = g.gpfsel2 ∧
      (mgpioWrites cs g).level gpioNum = lastAccepted cs (g.level gpioNum) := by
  induction cs generalizing g with
  | nil => exact ⟨.refl g, rfl, rfl⟩
  | cons c cs ih =>
    obtain ⟨helse, hsel, hlevel⟩ := ih (mgpioWrite c g).2
    have hspec := mgpioWrite_spec c g
    unfold lastAccepted at hlevel ⊢
    rw [mgpioWrites, List.foldl_cons, ← mgpioWrites, List.filterMap_cons]
    cases hc : c.accepted with
    | none =>
      rw [hc] at hspec
      rw [hspec.2] at helse hsel hlevel ⊢
      exact ⟨helse, hsel, hlevel⟩
    | some x =>
      rw [hc] at hspec
      rw [hspec.2] at helse hsel hlevel ⊢
      obtain ⟨helse', hsel', hlevel'⟩ := drive_spec x g
      refine ⟨helse'.trans helse, hsel.trans hsel', ?_⟩
      rw [hlevel, hlevel', List.getLast?_cons]
      rfl

/-! ### The main result -/

/-- **The driver touches only GPIO27.**  From a successful `mgpio_init` on, after any writes and
after `mgpio_exit`, the functions and levels of the other pins are as before; GPIO27 is an output;
it has the level of the last command, at first the one it had; and in the end it is low.  A command
is accepted where the write returns all of its length. -/
theorem touches_only_gpio27 {b : Board} {e : InitEnv} (hinit : (mgpioInit b e).1 = 0)
    (cs : List Call) :
    let g := mgpioWrites cs (mgpioInit b e).2.gpio
    let b' := mgpioExit { (mgpioInit b e).2 with gpio := g }
    SameElsewhere b.gpio g ∧ IsOutput g ∧ g.level gpioNum = lastAccepted cs (b.gpio.level gpioNum) ∧
      SameElsewhere b.gpio b'.gpio ∧ IsOutput b'.gpio ∧ b'.gpio.level gpioNum = false ∧
      ∀ (c : Call) (g : Gpio), c.accepted ≠ none ↔ 0 < c.len ∧ (mgpioWrite c g).1 = c.len := by
  simp only [mgpioInit_gpio hinit]
  obtain ⟨helse, hsel, hlevel⟩ := mgpioWrites_spec cs (gpio27AsOutput b.gpio)
  have hthere := (sameElsewhere_asOutput b.gpio).trans helse
  have hout : IsOutput (mgpioWrites cs (gpio27AsOutput b.gpio)) := by
    unfold IsOutput
    rw [hsel]
    exact isOutput_asOutput b.gpio
  obtain ⟨hoff, -, hlow⟩ := drive_spec false (mgpioWrites cs (gpio27AsOutput b.gpio))
  exact ⟨hthere, hout, hlevel, hthere.trans hoff, hout, hlow, ret_eq_len_iff⟩

/-- A board before the module is loaded, and calls that all succeed. -/
def bareBoard : Board where
  gpio := { gpfsel2 := 0x00E00249#32, levels := 0x00000010#32 }
  regs := { held := fun _ => false, log := [] }

def allGood : InitEnv where
  mapped := true
  region := 0
  cdev := 0
  deviceClass := 0
  node := 0

/-- A call that writes `data`. -/
def Call.of (data : List UInt8) : Call := { len := data.length, ubuf := fun i => data[i]? }

/-- A pin with the function 111, another pin that is high, and three writes. -/
theorem touches_only_gpio27_on :
    let g := mgpioWrites [.of (text "ON \n"), .of (text "on off"), .of []]
      (mgpioInit bareBoard allGood).2.gpio
    g.gpfsel2 = 0x00200249#32 ∧ g.levels = 0x08000010#32 ∧ IsOutput g ∧
      g.level gpioNum = true := by
  obtain ⟨-, hout, hlevel, -⟩ := touches_only_gpio27 (b := bareBoard) (e := allGood) rfl
    [.of (text "ON \n"), .of (text "on off"), .of []]
  exact ⟨by decide, by decide, hout, hlevel.trans (by decide)⟩

end EmbeddedLinux.MgpioReg
