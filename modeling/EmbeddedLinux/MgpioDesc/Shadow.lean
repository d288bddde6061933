import EmbeddedLinux.Lib.Interference
import EmbeddedLinux.Lib.KString

/-!
# The descriptor driver and its shadow state

`mgpio_write` drives the pin and stores its level in `mdev->state`, with `mdev->lock` held.
`mgpio_read` stores into the same `state`, but without the lock: it samples the pin in one step
and stores what it has sampled in a later one.  Any number of processes make any calls on
one device, in any interleaving.

A read that stores an old sample spoils `state`, unless a write is about to store it anyway
(`stale_store`).  Reads that store what the pin still shows do no harm (`state_follows_pin`).
`driven`, which no step reads, says that a write has driven the pin and not stored its
level yet.
-/

namespace EmbeddedLinux.MgpioDesc

open CString KString Interference Transition

/-- `-EFAULT` and `-EINVAL` -/
def efault : Int := -14
def einval : Int := -22

/-! ### The command -/

/-- `sizeof(kbuf)` -/
abbrev kbufSize : Nat := 8

/-- `char kbuf[8] = {0};` after `copy_from_user`. -/
def fillKbuf (data : List UInt8) : List UInt8 := List.ofFn (fun i : Fin kbufSize => data.getD i 0)

/-- The tests on `kbuf`: the level that is asked for, if the command is known. -/
def parse (kbuf : List UInt8) : Option Int :=
  if strncmp kbuf (text "1") 1 || strncasecmp kbuf (text "on") 2 then some 1
  else if strncmp kbuf (text "0") 1 || strncasecmp kbuf (text "off") 3 then some 0
  else none

/-! ### The calls -/

/-- The device.  The pin is driven by `gpiod_set_value_cansleep` only, and reads back as it was
driven. -/
structure Device (T : Type*) where
  /-- the level of the pin, 0 or 1 -/
  level : Int
  state : Int
  /-- the owner of `mdev->lock` -/
  lock : Option T
  driven : Bool

/-- Where a process is in its call.  Between two calls it has what the last one has returned. -/
inductive Pc
  | returned (ret : Int)
  /-- `mgpio_read` -/
  | sample
  | storeSample (x : Int)
  | copyOut (x : Int)
  /-- `mgpio_write` -/
  | copyIn (len : Nat)
  | lock (len : Nat) (x : Int)
  | drive (len : Nat) (x : Int)
  | store (len : Nat) (x : Int)
  | unlock (len : Nat)

/-- What the world decides in a step: which call is made next, and whether the user's memory
can be read or written. -/
inductive Input
  | read (pos : Nat)
  | write (len : Nat)
  | data (bytes : List UInt8)
  | fault
  | ok

variable {T : Type*}

/-- `!!v` -/
def truth (x : Int) : Int := if x ≠ 0 then 1 else 0

/-- What `snprintf` puts into `tmp`. -/
def sampleText (x : Int) : List UInt8 := (decimal x ++ text "\n").take 3

def fileStep (t : T) (e : Input) (m : Device T) : Pc → Option (Device T × Pc)
  | .returned _ =>
    match e with
    | .read pos => some (m, if pos ≠ 0 then .returned 0 else .sample)
    | .write len =>
      some (m, if len = 0 then .returned 0 else .copyIn (min len (kbufSize - 1)))
    | _ => none
  | .sample => some (m, .storeSample m.level)
  | .storeSample x => some ({ m with state := truth x }, .copyOut x)
  | .copyOut x =>
    match e with
    | .ok => some (m, .returned (sampleText x).length)
    | .fault => some (m, .returned efault)
    | _ => none
  | .copyIn len =>
    match e with
    | .data bytes =>
      if bytes.length = len then
        match parse (fillKbuf bytes) with
        | some x => some (m, .lock len x)
        | none => some (m, .returned einval)
      else none
    | .fault => some (m, .returned efault)
    | _ => none
  | .lock len x => if m.lock.isNone then some ({ m with lock := some t }, .drive len x) else none
  | .drive len x => some ({ m with level := x, driven := true }, .store len x)
  | .store len x => some ({ m with state := x, driven := false }, .unlock len)
  | .unlock len => some ({ m with lock := none }, .returned len)

/-- After `mgpio_probe`, which gets the pin as `GPIOD_OUT_LOW`. -/
def probed : Interference.State T (Device T) Pc where
  mem := { level := 0, state := 0, lock := none, driven := false }
  pc _ := .returned 0

/-- No call is in progress. -/
def Quiet (s : Interference.State T (Device T) Pc) : Prop := ∀ t, ∃ ret, s.pc t = .returned ret

/-- A read stores its sample only when the pin still has that level, or when a write has driven it
and is about to store. -/
def Fresh (_ : T) (_ : Input) (m : Device T) (pc : Pc) : Prop :=
  match pc with
  | .storeSample x => x = m.level ∨ m.driven = true
  | _ => True

instance (t : T) (e : Input) (m : Device T) (pc : Pc) : Decidable (Fresh t e m pc) :=
  match pc with
  | .storeSample x => inferInstanceAs (Decidable (x = m.level ∨ m.driven = true))
  | .returned _ | .sample | .copyOut _ | .copyIn _ | .lock _ _ | .drive _ _ | .store _ _
  | .unlock _ => .isTrue trivial

/-! ### The invariant -/

/-- The process has the mutex. -/
def Pc.holds : Pc → Bool
  | .drive _ _ | .store _ _ | .unlock _ => true
  | _ => false

def IsLevel (x : Int) : Prop := x = 0 ∨ x = 1

theorem truth_of_isLevel {x : Int} (h : IsLevel x) : truth x = x := by
  rcases h with rfl | rfl <;> rfl

theorem isLevel_parse {kbuf : List UInt8} {x : Int} (h : parse kbuf = some x) : IsLevel x := by
  unfold parse at h
  repeat' split at h
  · cases h
    exact Or.inr rfl
  · cases h
    exact Or.inl rfl
  · cases h

/-- What holds in every run. -/
structure Inv (m : Device T) : Prop where
  level : IsLevel m.level
  free : m.lock = none → m.driven = false

structure Assertion (t : T) (pc : Pc) (m : Device T) : Prop where
  mutex : pc.holds = true ↔ m.lock = some t
  place : match pc with
    | .storeSample x | .lock _ x => IsLevel x
    | .drive _ x => IsLevel x ∧ m.driven = false
    | .store _ x => m.level = x ∧ m.driven = true
    | .unlock _ => m.driven = false
    | _ => True

/-- What holds in the runs whose reads store fresh samples only. -/
def Agree (m : Device T) : Prop := m.driven = false → m.state = m.level

/-! ### The steps keep the invariant -/

variable {t u : T} {e : Input} {m m' : Device T} {pc pc' k : Pc}

/-- What a step can do to the device. -/
inductive Moves (t : T) (m : Device T) : Pc → Device T → Pc → Prop
  /-- A step outside of the section that leaves the device as it is. -/
  | stay {pc pc' : Pc} (hpc : pc.holds = false) (hpc' : pc'.holds = false)
      (hstore : ∀ x, pc ≠ .storeSample x)
      (hplace : ∀ x, (pc' = .storeSample x → x = m.level) ∧ ∀ len, pc' = .lock len x → IsLevel x) :
      Moves t m pc m pc'
  | storeSample (x : Int) : Moves t m (.storeSample x) { m with state := truth x } (.copyOut x)
  | lock (len : Nat) (x : Int) (hfree : m.lock = none) :
      Moves t m (.lock len x) { m with lock := some t } (.drive len x)
  | drive (len : Nat) (x : Int) :
      Moves t m (.drive len x) { m with level := x, driven := true } (.store len x)
  | store (len : Nat) (x : Int) :
      Moves t m (.store len x) { m with state := x, driven := false } (.unlock len)
  | unlock (len : Nat) : Moves t m (.unlock len) { m with lock := none } (.returned len)

/-- A step that ends a call, or goes on to copy. -/
theorem Moves.plain (hpc : pc.holds = false) (hpc' : pc'.holds = false)
    (hstore : ∀ x, pc ≠ .storeSample x) (hsample : ∀ x, pc' ≠ .storeSample x)
    (hlock : ∀ len x, pc' ≠ .lock len x) : Moves t m pc m pc' :=
  .stay hpc hpc' hstore
    (fun x => ⟨fun h => absurd h (hsample x), fun len h => absurd h (hlock len x)⟩)

theorem fileStep_moves (h : fileStep t e m pc = some (m', pc')) : Moves t m pc m' pc' := by
  cases pc with
  | returned ret =>
    cases e with
    | read pos =>
      cases h
      split
      · exact .plain rfl rfl nofun nofun nofun
      · exact .plain rfl rfl nofun nofun nofun
    | write len =>
      cases h
      split
      · exact .plain rfl rfl nofun nofun nofun
      · exact .plain rfl rfl nofun nofun nofun
    | _ => cases h
  | sample =>
    cases h
    refine .stay rfl rfl nofun (fun x => ⟨fun hx => ?_, nofun⟩)
    cases hx
    rfl
  | storeSample x =>
    cases h
    exact .storeSample x
  | copyOut x =>
    cases e with
    | ok =>
      cases h
      exact .plain rfl rfl nofun nofun nofun
    | fault =>
      cases h
      exact .plain rfl rfl nofun nofun nofun
    | _ => cases h
  | copyIn len =>
    cases e with
    | data bytes =>
      simp only [fileStep] at h
      split at h
      · split at h
        · rename_i x hx
          cases h
          refine .stay rfl rfl nofun (fun y => ⟨nofun, fun len' hy => ?_⟩)
          cases hy
          exact isLevel_parse hx
        · cases h
          exact .plain rfl rfl nofun nofun nofun
      · cases h
    | fault =>
      cases h
      exact .plain rfl rfl nofun nofun nofun
    | _ => cases h
  | lock len x =>
    simp only [fileStep] at h
    split at h
    · rename_i hnone
      cases h
      exact .lock len x (Option.isNone_iff_eq_none.1 hnone)
    · cases h
  | drive len x =>
    cases h
    exact .drive len x
  | store len x =>
    cases h
    exact .store len x
  | unlock len =>
    cases h
    exact .unlock len

theorem fileStep_own (hm : Inv m) (ha : Assertion t pc m) (h : fileStep t e m pc = some (m', pc')) :
    Inv m' ∧ Assertion t pc' m' := by
  obtain ⟨hmutex, hplace⟩ := ha
  have hmove := fileStep_moves h
  have hfree : pc.holds = false → m.lock ≠ some t := by
    intro hpc hlock
    rw [hmutex.2 hlock] at hpc
    cases hpc
  cases hmove with
  | stay hpc hpc' hstore hto =>
    refine ⟨hm, ⟨fun hholds => ?_, fun hlock => absurd hlock (hfree hpc)⟩, ?_⟩
    · rw [hpc'] at hholds
      cases hholds
    · cases pc' with
      | storeSample x =>
        rw [(hto x).1 rfl]
        exact hm.level
      | lock len x => exact (hto x).2 len rfl
      | drive | store | unlock => cases hpc'
      | _ => trivial
  | storeSample x =>
    exact ⟨⟨hm.level, hm.free⟩,
      ⟨fun hc => (by cases hc), fun hlock => absurd hlock (hfree rfl)⟩, trivial⟩
  | lock len x hnone =>
    exact ⟨⟨hm.level, fun hc => (by cases hc)⟩, ⟨fun _ => rfl, fun _ => rfl⟩, hplace, hm.free hnone⟩
  | drive len x =>
    have hlock := hmutex.1 rfl
    refine ⟨⟨hplace.1, fun hnone => ?_⟩, ⟨fun _ => hlock, fun _ => rfl⟩, rfl, rfl⟩
    rw [hlock] at hnone
    cases hnone
  | store len x =>
    exact ⟨⟨hm.level, fun _ => rfl⟩, ⟨fun _ => hmutex.1 rfl, fun _ => rfl⟩, rfl⟩
  | unlock len =>
    exact ⟨⟨hm.level, fun _ => hplace⟩, ⟨fun hc => (by cases hc), fun hc => (by cases hc)⟩, trivial⟩

/-- What a process leaves to the others: whether they have the lock, and what it protects from
those that do not. -/
theorem fileStep_frame (ha : Assertion t pc m) (hne : u ≠ t)
    (h : fileStep t e m pc = some (m', pc')) : (m'.lock = some u ↔ m.lock = some u) ∧
      (m.lock = some u → m'.level = m.level ∧ m'.driven = m.driven) := by
  have hmove := fileStep_moves h
  have hfree : pc.holds = true → m.lock ≠ some u := by
    intro hpc hlock
    rw [ha.mutex.1 hpc] at hlock
    exact hne (Option.some_inj.1 hlock).symm
  cases hmove with
  | stay | storeSample => exact ⟨Iff.rfl, fun _ => ⟨rfl, rfl⟩⟩
  | lock len x hnone =>
    rw [hnone]
    exact ⟨⟨fun hlock => absurd (Option.some_inj.1 hlock).symm hne, fun hc => (by cases hc)⟩,
      fun hc => (by cases hc)⟩
  | drive | store => exact ⟨Iff.rfl, fun hlock => absurd hlock (hfree rfl)⟩
  | unlock len =>
    exact ⟨⟨fun hc => (by cases hc), fun hlock => absurd hlock (hfree rfl)⟩,
      fun hlock => absurd hlock (hfree rfl)⟩

/-- The assertion of a process that does not move. -/
theorem Assertion.frame (hu : Assertion u k m) (hlock : m'.lock = some u ↔ m.lock = some u)
    (hsame : m.lock = some u → m'.level = m.level ∧ m'.driven = m.driven) : Assertion u k m' := by
  refine ⟨hu.mutex.trans hlock.symm, ?_⟩
  have hplace := hu.place
  cases k with
  | drive | store | unlock =>
    obtain ⟨hlevel, hdriven⟩ := hsame (hu.mutex.1 rfl)
    simp only [hlevel, hdriven]
    exact hplace
  | _ => exact hplace

/-- **The proof outline of the driver.** -/
theorem fileStep_outline :
    Outline (fileStep (T := T)) (fun _ _ _ _ => True) Inv Assertion where
  own _ _ _ _ _ _ hm ha _ h := fileStep_own hm ha h
  others _ _ _ _ _ _ _ _ hne _ ha hu _ h := by
    obtain ⟨hlock, hsame⟩ := fileStep_frame ha hne h
    exact hu.frame hlock hsame

/-- Only a read that stores an old sample parts `state` from the pin. -/
theorem fileStep_agree (hm : Inv m) (ha : Assertion t pc m) (hok : Fresh t e m pc)
    (h : fileStep t e m pc = some (m', pc')) (hagree : Agree m) : Agree m' := by
  have hmove := fileStep_moves h
  cases hmove with
  | stay | lock | unlock => exact hagree
  | storeSample x =>
    intro hdriven
    rcases hok with rfl | hbusy
    · exact truth_of_isLevel hm.level
    · rw [hbusy] at hdriven
      cases hdriven
  | drive len x =>
    intro hdriven
    cases hdriven
  | store len x => exact fun _ => ha.place.1.symm

/-- The outline of the runs whose reads store what the pin still shows. -/
theorem fresh_outline :
    Outline (fileStep (T := T)) Fresh (fun m => Inv m ∧ Agree m) Assertion where
  own _ _ _ _ _ _ hm ha hok h := by
    obtain ⟨hinv, hassert⟩ := fileStep_own hm.1 ha h
    exact ⟨⟨hinv, fileStep_agree hm.1 ha hok h hm.2⟩, hassert⟩
  others _ _ _ _ _ _ _ _ hne hm ha hu _ h :=
    fileStep_outline.others _ _ _ _ _ _ _ _ hne hm.1 ha hu trivial h

/-! ### The main result -/

theorem inv_probed : Inv (probed (T := T)).mem := ⟨Or.inl rfl, fun _ => rfl⟩

theorem assertion_probed (t : T) : Assertion t ((probed (T := T)).pc t) (probed (T := T)).mem :=
  ⟨⟨fun h => (by cases h), fun h => (by cases h)⟩, trivial⟩

/-- Between two calls the lock is free. -/
theorem driven_of_quiet {s : Interference.State T (Device T) Pc} (hs : Holds Inv Assertion s)
    (hq : Quiet s) : s.mem.driven = false := by
  obtain ⟨hm, ha⟩ := hs
  apply hm.free
  cases hlock : s.mem.lock with
  | none => rfl
  | some t =>
    obtain ⟨ret, hret⟩ := hq t
    have := (ha t).mutex.2 hlock
    rw [hret] at this
    cases this

variable [DecidableEq T]

/-- **`state` follows the pin.**  When every read stores what the pin still shows, then `state` is
the level of the pin whenever no call is in progress. -/
theorem state_follows_pin {s : Interference.State T (Device T) Pc}
    (hr : Reachable (next fileStep) (When Fresh) probed s) (hq : Quiet s) :
    s.mem.state = s.mem.level := by
  obtain ⟨⟨hm, hagree⟩, ha⟩ :=
    fresh_outline.reachable ⟨⟨inv_probed, fun _ => rfl⟩, assertion_probed⟩ hr
  exact hagree (driven_of_quiet ⟨hm, ha⟩ hq)

/-- A read that stores any other sample parts `state` from the pin, and no write is about to
mend it. -/
theorem stale_store {s s' : Interference.State T (Device T) Pc} {t : T} {e : Input}
    (hr : Reachable (next fileStep) Any probed s) (hstale : ¬ When Fresh s (t, e))
    (hn : next fileStep s (t, e) = some s') :
    s'.mem.driven = false ∧ s'.mem.state ≠ s'.mem.level := by
  obtain ⟨-, ha⟩ := fileStep_outline.any ⟨inv_probed, assertion_probed⟩ hr
  obtain ⟨m, pc, hstep, rfl⟩ := next_eq_some.1 hn
  have hassert := ha t
  unfold When Fresh at hstale
  simp only [State.move_mem] at hstep hstale ⊢
  split at hstale
  · rename_i x hpc
    rw [hpc] at hstep hassert
    cases hstep
    obtain ⟨hne, hbusy⟩ := not_or.1 hstale
    refine ⟨Bool.eq_false_iff.2 hbusy, ?_⟩
    simp only [truth_of_isLevel hassert.place]
    exact hne
  · exact absurd trivial hstale

/-- A process that writes `data`, from the call to its end. -/
def writeAll (t : Fin 2) (data : String) : List (Fin 2 × Input) :=
  [(t, .write (text data).length), (t, .data (text data)), (t, .ok), (t, .ok), (t, .ok), (t, .ok)]

/-- A read between two writes. -/
theorem state_follows_pin_read : ∃ s : Interference.State (Fin 2) (Device (Fin 2)) Pc,
    Reachable (next fileStep) (When Fresh) probed s ∧ s.mem.level = 1 ∧
      s.mem.state = s.mem.level := by
  have hr : Reachable (next fileStep) (When Fresh) (probed (T := Fin 2)) _ :=
    ⟨writeAll 0 "On\n" ++ [(1, .read 0), (1, .ok), (1, .ok), (1, .ok)] ++ writeAll 1 "1",
      exec_guarded rfl⟩
  refine ⟨_, hr, rfl, state_follows_pin hr (fun t => ?_)⟩
  match t with
  | 0 => exact ⟨_, rfl⟩
  | 1 => exact ⟨_, rfl⟩

/-- A read samples the low pin, a write drives it high, and then the read stores its sample. -/
theorem stale_sample : ∃ s : Interference.State (Fin 2) (Device (Fin 2)) Pc,
    Reachable (next fileStep) Any probed s ∧ Quiet s ∧ s.mem.state = 0 ∧ s.mem.level = 1 := by
  refine ⟨_, ⟨[(0, .read 0), (0, .ok)] ++ writeAll 1 "1" ++ [(0, .ok), (0, .ok)], exec_run rfl⟩,
    fun t => ?_, rfl, rfl⟩
  match t with
  | 0 => exact ⟨_, rfl⟩
  | 1 => exact ⟨_, rfl⟩

end EmbeddedLinux.MgpioDesc
