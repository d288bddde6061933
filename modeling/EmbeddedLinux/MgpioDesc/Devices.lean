import EmbeddedLinux.Lib.Registry
import EmbeddedLinux.Lib.Transition

/-!
# The devices of the descriptor driver

`mgpio_probe` and `mgpio_remove` on any number of platform devices.  The kernel's part is a
book of what is registered: for each device its chrdev region, its cdev, its lookup
table and its node in a class, and the classes.  Every kernel call of a probe may fail, and
what each of them does is in `Env`.  Memory and the GPIO descriptor are `devm_` resources:
the driver core gives them back, so they are not in the book.

All devices share the one static pointer `mgpio_class`.  The first probe creates the class,
and every `mgpio_remove` destroys it, also while other devices have their nodes in it.
And the result of `device_create` is not looked at, so a probe returns 0 without a node;
the kernel refuses, for one, a second node of the same name in a class, and all nodes
of the driver have the name `DEV_NAME`.  These two are the only slips: `devices_independent`.
-/

namespace EmbeddedLinux.MgpioDesc

open Transition Registry

abbrev DeviceId := Nat

/-- Classes, in the order in which they are created. -/
abbrev ClassId := Nat

/-- What the driver registers with the kernel. -/
inductive Resource
  | lookup (d : DeviceId)
  | region (d : DeviceId)
  | cdev (d : DeviceId)
  | node (d : DeviceId) (c : ClassId)
  | deviceClass (c : ClassId)
  deriving DecidableEq

/-- The device a registration belongs to. -/
def Resource.owner : Resource → Option DeviceId
  | .lookup d | .region d | .cdev d | .node d _ => some d
  | .deviceClass _ => none

/-- `-ENOMEM` and `-ENODEV` -/
def enomem : Int := -12
def enodev : Int := -19

/-- What the calls of one `mgpio_probe` find: whether an allocation succeeds, and the error of
a call that can fail, 0 when it does not. -/
structure Env where
  /-- `pdev->dev.of_node` is set -/
  ofNode : Bool
  /-- the module parameter at this moment -/
  useLookup : Bool
  mdev : Bool
  lt : Bool
  gpiod : Int
  region : Int
  cdev : Int
  deviceClass : Int
  /-- `device_create` succeeds -/
  node : Bool

/-- `struct mgpio_dev`, as far as `mgpio_remove` reads it: whether `lt` is set. -/
structure Mdev where
  lt : Bool

/-- The registrations, the static pointer, and the devices whose probe has returned 0.  `acquired`
is read by no step: what the probe of a bound device has registered. -/
structure State where
  regs : Book Resource
  classes : Nat
  mgpioClass : Option ClassId
  bound : DeviceId → Option Mdev
  acquired : DeviceId → List Resource

def initial : State :=
  { regs := { held := fun _ => false, log := [] }
    classes := 0
    mgpioClass := none
    bound := fun _ => none
    acquired := fun _ => [] }

/-! ### The two functions -/

/-- `if (mdev->lt) gpiod_remove_lookup_table(mdev->lt);` -/
def removeLookup (b : Book Resource) (d : DeviceId) (lt : Bool) : Book Resource :=
  if lt then b.release (.lookup d) else b

/-- From `device_create` on. -/
def probeNode (s : State) (d : DeviceId) (e : Env) (lt : Bool) (c : ClassId) : Int × State :=
  (0, { s with
    regs := if e.node then s.regs.acquire (.node d c) else s.regs
    bound := Function.update s.bound d (some { lt := lt }) })

/-- From `class_create` on. -/
def probeClass (s : State) (d : DeviceId) (e : Env) (lt : Bool) : Int × State :=
  match s.mgpioClass with
  | some c => probeNode s d e lt c
  | none =>
    if e.deviceClass ≠ 0 then
      let b := (s.regs.release (.cdev d)).release (.region d)
      (e.deviceClass, { s with regs := removeLookup b d lt, mgpioClass := none })
    else
      let s' := { s with
        regs := s.regs.acquire (.deviceClass s.classes)
        mgpioClass := some s.classes
        classes := s.classes + 1 }
      probeNode s' d e lt s.classes

/-- From `cdev_add` on. -/
def probeCdev (s : State) (d : DeviceId) (e : Env) (lt : Bool) : Int × State :=
  if e.cdev ≠ 0 then
    (e.cdev, { s with regs := removeLookup (s.regs.release (.region d)) d lt })
  else probeClass { s with regs := s.regs.acquire (.cdev d) } d e lt

/-- From the test of `mdev->gpiod` on. -/
def probeGpiod (s : State) (d : DeviceId) (e : Env) (lt : Bool) : Int × State :=
  if e.gpiod ≠ 0 then (e.gpiod, { s with regs := removeLookup s.regs d lt })
  else if e.region ≠ 0 then (e.region, { s with regs := removeLookup s.regs d lt })
  else probeCdev { s with regs := s.regs.acquire (.region d) } d e lt

/-- `mgpio_probe`: what it returns, and the state after it. -/
def mgpioProbe (s : State) (d : DeviceId) (e : Env) : Int × State :=
  if !e.mdev then (enomem, s)
  else if e.ofNode then probeGpiod s d e false
  else if e.useLookup then
    if !e.lt then (enomem, s)
    else probeGpiod { s with regs := s.regs.acquire (.lookup d) } d e true
  else (enodev, s)

/-- `device_destroy(mgpio_class, mdev->devt)`: it finds the node in the class, or does
nothing. -/
def deviceDestroy (b : Book Resource) (cls : Option ClassId) (d : DeviceId) : Book Resource :=
  match cls with
  | some c => if b.held (.node d c) then b.release (.node d c) else b
  | none => b

/-- `class_destroy(mgpio_class)`, which ignores NULL. -/
def classDestroy (b : Book Resource) (cls : Option ClassId) : Book Resource :=
  match cls with
  | some c => b.release (.deviceClass c)
  | none => b

/-- `mgpio_remove` -/
def mgpioRemove (s : State) (d : DeviceId) (mdev : Mdev) : State :=
  let b := removeLookup s.regs d mdev.lt
  let b := deviceDestroy b s.mgpioClass d
  let b := (b.release (.cdev d)).release (.region d)
  { s with regs := classDestroy b s.mgpioClass, mgpioClass := none }

/-! ### Steps -/

inductive Action
  | probe (d : DeviceId) (e : Env)
  | remove (d : DeviceId)

/-- A device is probed when it is not bound, and removed when it is. -/
def step (s : State) : Action → Option State
  | .probe d e =>
    match s.bound d with
    | some _ => none
    | none =>
      let r := mgpioProbe s d e
      some { r.2 with
        acquired := Function.update s.acquired d (Book.acquiredSince s.regs r.2.regs) }
  | .remove d =>
    match s.bound d with
    | some mdev => some { mgpioRemove s d mdev with bound := Function.update s.bound d none }
    | none => none

/-! ### What the two functions do -/

/-- Every call of the probe before `device_create` succeeds. -/
def Env.reaches (e : Env) (cls : Option ClassId) : Prop :=
  e.mdev = true ∧ (e.ofNode = true ∨ e.useLookup = true ∧ e.lt = true) ∧ e.gpiod = 0 ∧
    e.region = 0 ∧ e.cdev = 0 ∧ (cls = none → e.deviceClass = 0)

/-- The probe uses a lookup table. -/
def Env.table (e : Env) : Bool := !e.ofNode

/-- What a probe that gets through registers. -/
def Env.takes (e : Env) (d : DeviceId) (cls : Option ClassId) (c : ClassId) : List Resource :=
  (if e.table then [.lookup d] else []) ++ [.region d, .cdev d] ++
    (if cls = none then [.deviceClass c] else []) ++ (if e.node then [.node d c] else [])

/-- A probe whose calls succeed up to `device_create`. -/
theorem mgpioProbe_reaches {s : State} {d : DeviceId} {e : Env} (h : e.reaches s.mgpioClass) :
    mgpioProbe s d e = (0, { s with
      regs := s.regs.acquireAll (e.takes d s.mgpioClass (s.mgpioClass.getD s.classes))
      classes := s.classes + if s.mgpioClass = none then 1 else 0
      mgpioClass := some (s.mgpioClass.getD s.classes)
      bound := Function.update s.bound d (some { lt := e.table }) }) := by
  obtain ⟨hmdev, hlt, hgpiod, hregion, hcdev, hclass⟩ := h
  -- from the test of `mdev->gpiod` on, with the registrations made so far
  have hrest : ∀ (b : Book Resource) (lt : Bool), probeGpiod { s with regs := b } d e lt =
      (0, { s with
        regs := b.acquireAll ([.region d, .cdev d] ++
          (if s.mgpioClass = none then [.deviceClass (s.mgpioClass.getD s.classes)] else []) ++
          (if e.node then [.node d (s.mgpioClass.getD s.classes)] else []))
        classes := s.classes + if s.mgpioClass = none then 1 else 0
        mgpioClass := some (s.mgpioClass.getD s.classes)
        bound := Function.update s.bound d (some { lt := lt }) }) := by
    intro b lt
    unfold probeGpiod probeCdev probeClass probeNode
    cases hc : s.mgpioClass with
    | none =>
      have h0 := hclass hc
      cases e.node <;> simp [hgpiod, hregion, hcdev, h0, Book.acquireAll]
    | some c =>
      cases e.node <;> simp [hgpiod, hregion, hcdev, Book.acquireAll]
  unfold mgpioProbe Env.takes Env.table
  cases hof : e.ofNode with
  | true => simp [hmdev, hrest s.regs false]
  | false =>
    rcases hlt with h | ⟨huse, hl⟩
    · rw [hof] at h
      cases h
    · simp [hmdev, huse, hl, hrest (s.regs.acquire (.lookup d)) true, Book.acquireAll_cons]

/-- A probe that fails from the test of `mdev->gpiod` on takes back what it has registered from
there on, and the lookup table. -/
theorem probeGpiod_fails {s : State} {d : DeviceId} {e : Env} (lt : Bool)
    (h : ¬ (e.gpiod = 0 ∧ e.region = 0 ∧ e.cdev = 0 ∧ (s.mgpioClass = none → e.deviceClass = 0))) :
    (probeGpiod s d e lt).1 ≠ 0 ∧ ∃ rs : List Resource, (∀ r ∈ rs, r.owner = some d) ∧
      (probeGpiod s d e lt).2 =
        { s with regs := removeLookup ((s.regs.acquireAll rs).releaseAll rs.reverse) d lt } := by
  unfold probeGpiod
  by_cases hg : e.gpiod = 0
  · by_cases hr : e.region = 0
    · unfold probeCdev
      by_cases hc : e.cdev = 0
      · unfold probeClass
        cases hcl : s.mgpioClass with
        | some c => exact absurd ⟨hg, hr, hc, fun e => by rw [hcl] at e; cases e⟩ h
        | none =>
          have h0 : e.deviceClass ≠ 0 := fun h0 => h ⟨hg, hr, hc, fun _ => h0⟩
          simp only [hg, hr, hc, h0, ne_eq, not_true_eq_false, not_false_eq_true, if_false,
            if_true, true_and]
          refine ⟨[.region d, .cdev d], ?_, ?_⟩
          · simp [Resource.owner]
          · rw [hcl.symm]
            rfl
      · simp only [hg, hr, hc, ne_eq, not_true_eq_false, not_false_eq_true, if_false, if_true,
          true_and]
        exact ⟨[.region d], by simp [Resource.owner], rfl⟩
    · simp only [hg, hr, ne_eq, not_true_eq_false, not_false_eq_true, if_false, if_true, true_and]
      exact ⟨[], by simp, rfl⟩
  · simp only [hg, ne_eq, not_false_eq_true, if_true, true_and]
    exact ⟨[], by simp, rfl⟩

/-- A probe one of whose calls fails before `device_create` takes back all it has
registered. -/
theorem mgpioProbe_fails {s : State} {d : DeviceId} {e : Env} (h : ¬ e.reaches s.mgpioClass) :
    (mgpioProbe s d e).1 ≠ 0 ∧ ∃ rs : List Resource, (∀ r ∈ rs, r.owner = some d) ∧
      (mgpioProbe s d e).2 =
        { s with regs := (s.regs.acquireAll rs).releaseAll rs.reverse } := by
  have hkeep : ∀ ret : Int, ret ≠ 0 → ∀ r : Int × State, r = (ret, s) → r.1 ≠ 0 ∧
      ∃ rs : List Resource, (∀ r ∈ rs, r.owner = some d) ∧
        r.2 = { s with regs := (s.regs.acquireAll rs).releaseAll rs.reverse } := by
    intro ret hret r hr
    subst hr
    exact ⟨hret, [], by simp, rfl⟩
  unfold mgpioProbe
  cases hm : e.mdev with
  | false => exact hkeep enomem (by decide) _ rfl
  | true =>
    cases hof : e.ofNode with
    | true =>
      have hrest : ¬ (e.gpiod = 0 ∧ e.region = 0 ∧ e.cdev = 0 ∧
          (s.mgpioClass = none → e.deviceClass = 0)) :=
        fun hr => h ⟨hm, Or.inl hof, hr⟩
      exact probeGpiod_fails false hrest
    | false =>
      cases hu : e.useLookup with
      | false => exact hkeep enodev (by decide) _ rfl
      | true =>
        cases hl : e.lt with
        | false => exact hkeep enomem (by decide) _ rfl
        | true =>
          have hrest : ¬ (e.gpiod = 0 ∧ e.region = 0 ∧ e.cdev = 0 ∧
              (s.mgpioClass = none → e.deviceClass = 0)) :=
            fun hr => h ⟨hm, Or.inr ⟨hu, hl⟩, hr⟩
          obtain ⟨h1, rs, h2, h3⟩ := probeGpiod_fails
            (s := { s with regs := s.regs.acquire (.lookup d) }) (d := d) true hrest
          refine ⟨h1, .lookup d :: rs, ?_, ?_⟩
          · rw [List.forall_mem_cons]
            exact ⟨rfl, h2⟩
          · rw [List.reverse_cons, Book.releaseAll_append, Book.acquireAll_cons]
            exact h3

/-- What `mgpio_remove` takes back. -/
def State.gives (s : State) (d : DeviceId) (mdev : Mdev) : List Resource :=
  (if mdev.lt then [.lookup d] else []) ++
    (match s.mgpioClass with
      | some c => if s.regs.held (.node d c) then [.node d c] else []
      | none => []) ++
    [.cdev d, .region d] ++
    (match s.mgpioClass with
      | some c => [.deviceClass c]
      | none => [])

theorem Env.mem_takes {e : Env} {d : DeviceId} {cls : Option ClassId} {c : ClassId}
    {r : Resource} : r ∈ e.takes d cls c ↔ r = .region d ∨ r = .cdev d ∨
      (e.table = true ∧ r = .lookup d) ∨ (e.node = true ∧ r = .node d c) ∨
        (cls = none ∧ r = .deviceClass c) := by
  unfold Env.takes
  cases e.table <;> cases e.node <;> by_cases h : cls = none <;> simp [h] <;> tauto

theorem Env.nodup_takes (e : Env) (d : DeviceId) (cls : Option ClassId) (c : ClassId) :
    (e.takes d cls c).Nodup := by
  unfold Env.takes
  cases e.table <;> cases e.node <;> by_cases h : cls = none <;> simp [h]

/-- The step of a probe that gets through. -/
theorem step_reaches {s : State} {d : DeviceId} {e : Env} (hd : s.bound d = none)
    (h : e.reaches s.mgpioClass) :
    step s (.probe d e) = some
      { regs := s.regs.acquireAll (e.takes d s.mgpioClass (s.mgpioClass.getD s.classes))
        classes := s.classes + if s.mgpioClass = none then 1 else 0
        mgpioClass := some (s.mgpioClass.getD s.classes)
        bound := Function.update s.bound d (some { lt := e.table })
        acquired := Function.update s.acquired d
          (e.takes d s.mgpioClass (s.mgpioClass.getD s.classes)) } := by
  simp only [step, hd, mgpioProbe_reaches h, Book.acquiredSince_acquireAll]

/-- The step of a probe that fails, on a device that has nothing registered. -/
theorem step_fails {s : State} {d : DeviceId} {e : Env} (hd : s.bound d = none)
    (hfree : ∀ r, r.owner = some d → s.regs.held r = false) (h : ¬ e.reaches s.mgpioClass) :
    ∃ (b : Book Resource) (rs : List Resource), b.held = s.regs.held ∧
      step s (.probe d e) =
        some { s with regs := b, acquired := Function.update s.acquired d rs } := by
  obtain ⟨-, rs, hown, hstate⟩ := mgpioProbe_fails (d := d) h
  let b := (s.regs.acquireAll rs).releaseAll rs.reverse
  refine ⟨b, Book.acquiredSince s.regs b, ?_, by simp only [step, hd, hstate, b]⟩
  funext r
  rw [Bool.eq_iff_iff, Book.held_undo (by simp)]
  constructor
  · exact fun hr => hr.2
  · refine fun hr => ⟨fun hmem => ?_, hr⟩
    rw [hfree r (hown r hmem)] at hr
    cases hr

theorem held_removeLookup_node (b : Book Resource) (d : DeviceId) (lt : Bool) (c : ClassId) :
    (removeLookup b d lt).held (.node d c) = b.held (.node d c) := by
  unfold removeLookup
  cases lt <;> simp [Book.release]

theorem mgpioRemove_eq (s : State) (d : DeviceId) (mdev : Mdev) :
    mgpioRemove s d mdev =
      { s with regs := s.regs.releaseAll (s.gives d mdev), mgpioClass := none } := by
  unfold mgpioRemove State.gives deviceDestroy classDestroy
  cases hc : s.mgpioClass with
  | none => cases hl : mdev.lt <;> simp [removeLookup, Book.releaseAll]
  | some c =>
    simp only [held_removeLookup_node]
    cases hl : mdev.lt <;> cases hn : s.regs.held (.node d c) <;>
      simp [removeLookup, Book.releaseAll]

/-! ### The property and the condition -/

/-- Every bound device has its region, its cdev, its lookup table if it uses one, and a node
in a class that exists. -/
def Registered (s : State) : Prop :=
  ∀ d mdev, s.bound d = some mdev →
    s.regs.held (.region d) = true ∧ s.regs.held (.cdev d) = true ∧
      (mdev.lt = true → s.regs.held (.lookup d) = true) ∧
      ∃ c, s.regs.held (.node d c) = true ∧ s.regs.held (.deviceClass c) = true

/-- After the step all bound devices are registered; a failed probe has left nothing of its own
and the others' as it was; a removal has taken back what the probe registered, each thing
once. -/
def Right (s : State) (a : Action) : Prop :=
  ∀ t, step s a = some t → Registered t ∧
    match a with
    | .probe d e => (mgpioProbe s d e).1 ≠ 0 →
        (∀ r, r.owner = some d → t.regs.held r = false) ∧
          ∀ r, r.owner ≠ some d → t.regs.held r = s.regs.held r
    | .remove d => (Book.releasedSince s.regs t.regs).Perm (s.acquired d) ∧
        (Book.releasedSince s.regs t.regs).Nodup

/-- `device_create` succeeds, and a device is removed when no other is bound. -/
def Careful (s : State) : Action → Prop
  | .probe _ e => e.reaches s.mgpioClass → e.node = true
  | .remove d => ∀ d', d' ≠ d → s.bound d' = none

/-! ### The invariant -/

/-- What a bound device has of its own. -/
def Mdev.own (mdev : Mdev) (d : DeviceId) (cls : Option ClassId) (r : Resource) : Prop :=
  r = .region d ∨ r = .cdev d ∨ (mdev.lt = true ∧ r = .lookup d) ∨
    ∃ c, cls = some c ∧ r = .node d c

/-- What is registered for a bound device. -/
structure Settled (s : State) (d : DeviceId) (mdev : Mdev) : Prop where
  hasClass : ∃ c, s.mgpioClass = some c
  own : ∀ r, r.owner = some d → (s.regs.held r = true ↔ mdev.own d s.mgpioClass r)
  once : (s.acquired d).Nodup
  acquired : ∀ r, r.owner = some d → (r ∈ s.acquired d ↔ s.regs.held r = true)
  others : ∀ r ∈ s.acquired d, r.owner = some d ∨ s.regs.held r = true ∧ r.owner = none

/-- The states that careful steps lead to. -/
structure Clean (s : State) : Prop where
  unbound : ∀ d, s.bound d = none → ∀ r, r.owner = some d → s.regs.held r = false
  settled : ∀ d mdev, s.bound d = some mdev → Settled s d mdev
  classes : ∀ c, s.regs.held (.deviceClass c) = true ↔ s.mgpioClass = some c
  creator : ∀ c, s.mgpioClass = some c →
    ∃ d mdev, s.bound d = some mdev ∧ .deviceClass c ∈ s.acquired d

theorem clean_initial : Clean initial where
  unbound _ _ _ _ := rfl
  settled _ _ h := by cases h
  classes c := by simp [initial]
  creator _ h := by cases h

theorem Clean.registered {s : State} (hs : Clean s) : Registered s := by
  intro d mdev hd
  have hset := hs.settled d mdev hd
  obtain ⟨c, hc⟩ := hset.hasClass
  refine ⟨?_, ?_, ?_, c, ?_, ?_⟩
  · exact (hset.own _ rfl).2 (Or.inl rfl)
  · exact (hset.own _ rfl).2 (Or.inr (Or.inl rfl))
  · exact fun hlt => (hset.own _ rfl).2 (Or.inr (Or.inr (Or.inl ⟨hlt, rfl⟩)))
  · exact (hset.own _ rfl).2 (Or.inr (Or.inr (Or.inr ⟨c, hc, rfl⟩)))
  · exact (hs.classes c).2 hc

/-- A step that concerns another device. -/
theorem Settled.frame {s t : State} {d : DeviceId} {mdev : Mdev} (h : Settled s d mdev)
    (hcls : t.mgpioClass = s.mgpioClass) (hacq : t.acquired d = s.acquired d)
    (hown : ∀ r, r.owner = some d → (t.regs.held r = true ↔ s.regs.held r = true))
    (hnone : ∀ r, r.owner = none → s.regs.held r = true → t.regs.held r = true) :
    Settled t d mdev where
  hasClass := by rw [hcls]; exact h.hasClass
  own r hr := by rw [hown r hr, hcls]; exact h.own r hr
  once := by rw [hacq]; exact h.once
  acquired r hr := by rw [hown r hr, hacq]; exact h.acquired r hr
  others r hr := by
    rw [hacq] at hr
    rcases h.others r hr with hown' | ⟨hheld, hr'⟩
    · exact Or.inl hown'
    · exact Or.inr ⟨hnone r hr' hheld, hr'⟩

/-- What a probe with its node does. -/
structure Probed (s : State) (d : DeviceId) (e : Env) (c : ClassId) (t : State) : Prop where
  mgpioClass : t.mgpioClass = some c
  same : ∀ c', s.mgpioClass = some c' → c = c'
  held : ∀ r, t.regs.held r = true ↔ r ∈ e.takes d s.mgpioClass c ∨ s.regs.held r = true
  bound : t.bound d = some { lt := e.table }
  acquired : t.acquired d = e.takes d s.mgpioClass c
  others : ∀ d', d' ≠ d → t.bound d' = s.bound d' ∧ t.acquired d' = s.acquired d'

theorem step_probed {s t : State} {d : DeviceId} {e : Env} (hd : s.bound d = none)
    (he : e.reaches s.mgpioClass) (hn : step s (.probe d e) = some t) :
    Probed s d e (s.mgpioClass.getD s.classes) t := by
  rw [step_reaches hd he, Option.some_inj] at hn
  subst hn
  refine ⟨rfl, ?_, ?_, Function.update_self .., Function.update_self .., ?_⟩
  · intro c' hc'
    rw [hc']
    rfl
  · exact fun r => Book.held_acquireAll
  · exact fun d' hd' => ⟨Function.update_of_ne hd' _ _, Function.update_of_ne hd' _ _⟩

/-- The device that was probed. -/
theorem Probed.settled {s t : State} {d : DeviceId} {e : Env} {c : ClassId}
    (h : Probed s d e c t) (hfree : ∀ r, r.owner = some d → s.regs.held r = false)
    (hnode : e.node = true) : Settled t d { lt := e.table } := by
  have hmine : ∀ r, r.owner = some d →
      (t.regs.held r = true ↔ r ∈ e.takes d s.mgpioClass c) := by
    intro r hr
    rw [h.held, hfree r hr]
    simp
  refine ⟨⟨c, h.mgpioClass⟩, ?_, ?_, ?_, ?_⟩
  · intro r hr
    have hcls : ¬ (s.mgpioClass = none ∧ r = .deviceClass c) := by
      rintro ⟨-, rfl⟩
      cases hr
    rw [hmine r hr, Env.mem_takes, Mdev.own, h.mgpioClass]
    simp [hnode, hcls]
  · rw [h.acquired]
    exact Env.nodup_takes _ _ _ _
  · intro r hr
    rw [h.acquired, hmine r hr]
  · intro r hr
    rw [h.held]
    rw [h.acquired] at hr
    have hmem := hr
    rw [Env.mem_takes] at hr
    rcases hr with rfl | rfl | ⟨-, rfl⟩ | ⟨-, rfl⟩ | ⟨-, rfl⟩
    case inr.inr.inr.inr => exact Or.inr ⟨Or.inl hmem, rfl⟩
    all_goals exact Or.inl rfl

/-- A probe takes nothing of another device. -/
theorem Env.owner_takes {e : Env} {d d' : DeviceId} {cls : Option ClassId} {c : ClassId}
    {r : Resource} (hr : r ∈ e.takes d cls c) (hown : r.owner = some d') : d' = d := by
  rw [Env.mem_takes] at hr
  rcases hr with rfl | rfl | ⟨-, rfl⟩ | ⟨-, rfl⟩ | ⟨-, rfl⟩ <;> cases hown <;> rfl

theorem Probed.clean {s t : State} {d : DeviceId} {e : Env} {c : ClassId} (hs : Clean s)
    (hd : s.bound d = none) (h : Probed s d e c t) (hnode : e.node = true) : Clean t := by
  have hne : ∀ {d' mdev}, s.bound d' = some mdev → d' ≠ d := by
    rintro d' mdev hd' rfl
    rw [hd] at hd'
    cases hd'
  have hother : ∀ d', d' ≠ d → ∀ r, r.owner = some d' →
      (t.regs.held r = true ↔ s.regs.held r = true) := by
    intro d' hd' r hr
    rw [h.held, or_iff_right]
    exact fun hmem => hd' (Env.owner_takes hmem hr)
  refine ⟨?_, ?_, ?_, ?_⟩
  · intro d' hd' r hr
    have hne' : d' ≠ d := by
      rintro rfl
      rw [h.bound] at hd'
      cases hd'
    rw [(h.others d' hne').1] at hd'
    rw [Bool.eq_false_iff, ne_eq, hother d' hne' r hr, hs.unbound d' hd' r hr]
    decide
  · intro d' mdev hd'
    by_cases hdd : d' = d
    · subst hdd
      rw [h.bound, Option.some_inj] at hd'
      subst hd'
      exact h.settled (hs.unbound d' hd) hnode
    · rw [(h.others d' hdd).1] at hd'
      have hset := hs.settled d' mdev hd'
      obtain ⟨c', hc'⟩ := hset.hasClass
      refine hset.frame ?_ (h.others d' hdd).2 (hother d' hdd) ?_
      · rw [h.mgpioClass, hc', h.same c' hc']
      · exact fun r _ hr => (h.held r).2 (Or.inr hr)
  · intro c'
    rw [h.held, hs.classes, Env.mem_takes, h.mgpioClass]
    cases hcls : s.mgpioClass with
    | none =>
      simp only [reduceCtorEq, false_or, and_false, true_and, or_false, Option.some_inj,
        Resource.deviceClass.injEq]
      exact eq_comm
    | some c₀ => simp [h.same c₀ hcls]
  · intro c' hc'
    rw [h.mgpioClass, Option.some_inj] at hc'
    subst hc'
    cases hcls : s.mgpioClass with
    | none =>
      refine ⟨d, _, h.bound, ?_⟩
      rw [h.acquired, Env.mem_takes, hcls]
      simp
    | some c₀ =>
      obtain ⟨d', mdev, hd', hmem⟩ := hs.creator c₀ hcls
      obtain ⟨hb, ha⟩ := h.others d' (hne hd')
      rw [← hb] at hd'
      rw [← ha, ← h.same c₀ hcls] at hmem
      exact ⟨d', mdev, hd', hmem⟩

/-- A failed probe changes nothing that the invariant reads. -/
theorem Clean.of_fails {s : State} {d : DeviceId} {b : Book Resource} {rs : List Resource}
    (hs : Clean s) (hd : s.bound d = none) (hb : b.held = s.regs.held) :
    Clean { s with regs := b, acquired := Function.update s.acquired d rs } := by
  have hacq : ∀ d' mdev, s.bound d' = some mdev →
      Function.update s.acquired d rs d' = s.acquired d' := by
    intro d' mdev hd'
    refine Function.update_of_ne (fun h => ?_) _ _
    rw [h, hd] at hd'
    cases hd'
  refine ⟨?_, ?_, ?_, ?_⟩
  · exact fun d' hd' r hr => by simpa only [hb] using hs.unbound d' hd' r hr
  · intro d' mdev hd'
    refine (hs.settled d' mdev hd').frame rfl (hacq d' mdev hd') ?_ ?_
    · exact fun r _ => by simp only [hb]
    · exact fun r _ hr => by simpa only [hb] using hr
  · exact fun c => by simpa only [hb] using hs.classes c
  · intro c hc
    obtain ⟨d', mdev, hd', hmem⟩ := hs.creator c hc
    refine ⟨d', mdev, hd', ?_⟩
    rw [← hacq d' mdev hd'] at hmem
    exact hmem

/-! ### A removal -/

/-- The step of a removal. -/
theorem step_remove {s : State} {d : DeviceId} {mdev : Mdev} (hd : s.bound d = some mdev) :
    step s (.remove d) = some { s with
      regs := s.regs.releaseAll (s.gives d mdev)
      mgpioClass := none
      bound := Function.update s.bound d none } := by
  simp only [step, hd, mgpioRemove_eq]

/-- A settled device is removed with all that is its own, and the class. -/
theorem Clean.mem_gives {s : State} {d : DeviceId} {mdev : Mdev} (hs : Clean s)
    (hd : s.bound d = some mdev) (r : Resource) :
    r ∈ s.gives d mdev ↔ s.regs.held r = true ∧ (r.owner = some d ∨ r.owner = none) := by
  have hset := hs.settled d mdev hd
  obtain ⟨c, hc⟩ := hset.hasClass
  have hnode : s.regs.held (.node d c) = true :=
    (hset.own _ rfl).2 (Or.inr (Or.inr (Or.inr ⟨c, hc, rfl⟩)))
  have hgives : r ∈ s.gives d mdev ↔ mdev.own d s.mgpioClass r ∨ r = .deviceClass c := by
    unfold State.gives Mdev.own
    cases mdev.lt <;> simp [hc, hnode] <;> tauto
  rw [hgives]
  constructor
  · rintro (hown | rfl)
    · have howner : r.owner = some d := by
        rcases hown with rfl | rfl | ⟨-, rfl⟩ | ⟨c', -, rfl⟩ <;> rfl
      exact ⟨(hset.own r howner).2 hown, Or.inl howner⟩
    · exact ⟨(hs.classes c).2 hc, Or.inr rfl⟩
  · rintro ⟨hheld, hown | hnone⟩
    · exact Or.inl ((hset.own r hown).1 hheld)
    · cases r with
      | deviceClass c' =>
        rw [hs.classes, hc, Option.some_inj] at hheld
        exact Or.inr (by rw [hheld])
      | lookup _ | region _ | cdev _ | node _ _ => cases hnone

theorem State.nodup_gives (s : State) (d : DeviceId) (mdev : Mdev) : (s.gives d mdev).Nodup := by
  unfold State.gives
  cases s.mgpioClass with
  | none => cases mdev.lt <;> simp
  | some c => cases mdev.lt <;> cases h : s.regs.held (.node d c) <;> simp [h]

/-- The last device gives back what its probe took. -/
theorem Clean.gives_perm {s : State} {d : DeviceId} {mdev : Mdev} (hs : Clean s)
    (hd : s.bound d = some mdev) (halone : ∀ d', d' ≠ d → s.bound d' = none) :
    (s.gives d mdev).Perm (s.acquired d) := by
  have hset := hs.settled d mdev hd
  rw [List.perm_ext_iff_of_nodup (s.nodup_gives d mdev) hset.once]
  intro r
  rw [hs.mem_gives hd]
  constructor
  · rintro ⟨hheld, hown | hnone⟩
    · exact (hset.acquired r hown).2 hheld
    · cases r with
      | deviceClass c =>
        obtain ⟨d', mdev', hd', hmem⟩ := hs.creator c ((hs.classes c).1 hheld)
        have hdd : d' = d := by
          by_contra hdd
          rw [halone d' hdd] at hd'
          cases hd'
        rw [hdd] at hmem
        exact hmem
      | lookup _ | region _ | cdev _ | node _ _ => cases hnone
  · intro hmem
    rcases hset.others r hmem with hown | ⟨hheld, hnone⟩
    · exact ⟨(hset.acquired r hown).1 hmem, Or.inl hown⟩
    · exact ⟨hheld, Or.inr hnone⟩

/-- Without the last device nothing is registered. -/
theorem Clean.of_remove {s t : State} {d : DeviceId} {mdev : Mdev} (hs : Clean s)
    (hd : s.bound d = some mdev) (halone : ∀ d', d' ≠ d → s.bound d' = none)
    (hn : step s (.remove d) = some t) : Clean t := by
  rw [step_remove hd, Option.some_inj] at hn
  subst hn
  have hgone : ∀ r, r.owner = some d ∨ r.owner = none →
      (s.regs.releaseAll (s.gives d mdev)).held r = false := by
    intro r hr
    rw [Bool.eq_false_iff, ne_eq, Book.held_releaseAll, hs.mem_gives hd]
    exact fun h => h.1 ⟨h.2, hr⟩
  have hnone : ∀ d', Function.update s.bound d none d' = none := by
    intro d'
    by_cases hdd : d' = d
    · rw [hdd, Function.update_self]
    · rw [Function.update_of_ne hdd, halone d' hdd]
  refine ⟨?_, ?_, ?_, ?_⟩
  · intro d' _ r hr
    by_cases hdd : d' = d
    · exact hgone r (Or.inl (hdd ▸ hr))
    · rw [Bool.eq_false_iff, ne_eq, Book.held_releaseAll, hs.unbound d' (halone d' hdd) r hr]
      simp
  · intro d' mdev' hd'
    cases (hnone d').symm.trans hd'
  · intro c
    have := hgone (.deviceClass c) (Or.inr rfl)
    simp [this]
  · intro c hc
    cases hc

/-! ### The main result -/

theorem Clean.step {s t : State} {a : Action} (hs : Clean s) (ha : Careful s a)
    (hn : step s a = some t) : Clean t := by
  cases a with
  | probe d e =>
    cases hd : s.bound d with
    | some mdev => simp [MgpioDesc.step, hd] at hn
    | none =>
      by_cases he : e.reaches s.mgpioClass
      · exact (step_probed hd he hn).clean hs hd (ha he)
      · obtain ⟨b, rs, hb, hstep⟩ := step_fails hd (hs.unbound d hd) he
        rw [hstep, Option.some_inj] at hn
        subst hn
        exact hs.of_fails hd hb
  | remove d =>
    cases hd : s.bound d with
    | none => simp [MgpioDesc.step, hd] at hn
    | some mdev => exact hs.of_remove hd ha hn

/-- From a clean state, a step is right exactly when it is careful. -/
theorem Clean.right_iff {s t : State} {a : Action} (hs : Clean s)
    (hn : MgpioDesc.step s a = some t) : Right s a ↔ Careful s a := by
  constructor
  · intro hr
    obtain ⟨hreg, -⟩ := hr t hn
    cases a with
    | probe d e =>
      intro he
      cases hd : s.bound d with
      | some mdev => simp [MgpioDesc.step, hd] at hn
      | none =>
        have hp := step_probed hd he hn
        obtain ⟨-, -, -, c, hnode, -⟩ := hreg d _ hp.bound
        rw [hp.held, hs.unbound d hd _ rfl, Env.mem_takes] at hnode
        simp at hnode
        exact hnode.1
    | remove d =>
      intro d' hdd
      cases hd : s.bound d with
      | none => simp [MgpioDesc.step, hd] at hn
      | some mdev =>
        rw [step_remove hd, Option.some_inj] at hn
        subst hn
        by_contra hne
        obtain ⟨mdev', hd'⟩ := Option.ne_none_iff_exists'.1 hne
        -- the class of the other device is gone
        obtain ⟨-, -, -, c, -, hc⟩ := hreg d' mdev' (by simpa [Function.update_of_ne hdd] using hd')
        rw [Book.held_releaseAll, hs.mem_gives hd] at hc
        exact hc.1 ⟨hc.2, Or.inr rfl⟩
  · intro ha u hu
    refine ⟨(hs.step ha hu).registered, ?_⟩
    cases a with
    | probe d e =>
      intro hret
      cases hd : s.bound d with
      | some mdev => simp [MgpioDesc.step, hd] at hn
      | none =>
        have he : ¬ e.reaches s.mgpioClass := fun he => by
          rw [mgpioProbe_reaches he] at hret
          exact hret rfl
        obtain ⟨b, rs, hb, hstep⟩ := step_fails hd (hs.unbound d hd) he
        rw [hstep, Option.some_inj] at hu
        subst hu
        refine ⟨fun r hr => ?_, fun r _ => by simp only [hb]⟩
        simp only [hb]
        exact hs.unbound d hd r hr
    | remove d =>
      cases hd : s.bound d with
      | none => simp [MgpioDesc.step, hd] at hn
      | some mdev =>
        rw [step_remove hd, Option.some_inj] at hu
        subst hu
        rw [Book.releasedSince_releaseAll]
        exact ⟨hs.gives_perm hd ha, s.nodup_gives d mdev⟩

/-- **The devices are independent as long as every `device_create` succeeds and no device is
removed while another is bound.**  The steps of a run from the start are all right exactly
when they are all careful. -/
theorem devices_independent (as : List Action) (t : State) :
    Run step Right initial as t ↔ Run step Careful initial as t :=
  Run.iff_of_invariant clean_initial (fun _ _ _ hs hn => hs.right_iff hn)
    (fun _ _ _ hs ha hn => hs.step ha hn)

/-! ### Two devices -/

/-- Every call of the probe succeeds, in the device tree. -/
def allGood : Env where
  ofNode := true
  useLookup := false
  mdev := true
  lt := true
  gpiod := 0
  region := 0
  cdev := 0
  deviceClass := 0
  node := true

/-- The removal of one device destroys the class of the other, and a probe whose
`device_create` fails returns 0. -/
theorem class_destroyed_under_device :
    (∃ t : State, Run step Any initial [.probe 0 allGood, .probe 1 allGood, .remove 1] t ∧
      t.bound 0 = some { lt := false } ∧ ¬ Registered t) ∧
    ∃ t : State,
      Run step Any initial [.probe 0 allGood, .probe 1 { allGood with node := false }] t ∧
      t.bound 1 = some { lt := false } ∧ ¬ Registered t := by
  refine ⟨⟨_, exec_run rfl, rfl, ?_⟩, ⟨_, exec_run rfl, rfl, ?_⟩⟩
  · intro h
    obtain ⟨-, -, -, c, -, hclass⟩ := h 0 { lt := false } rfl
    cases c with
    | zero => exact Bool.false_ne_true hclass
    | succ c => exact Bool.false_ne_true hclass
  · intro h
    obtain ⟨-, -, -, c, hnode, -⟩ := h 1 { lt := false } rfl
    exact Bool.false_ne_true hnode

end EmbeddedLinux.MgpioDesc
