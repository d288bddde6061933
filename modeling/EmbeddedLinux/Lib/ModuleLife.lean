import EmbeddedLinux.Lib.Transition
import Mathlib.Data.List.Count

/-!
# The life of a kernel module

A module is loaded, files are opened on its device, calls are made on them, the files are closed,
and the module is unloaded; all this again and again.  The kernel holds a reference to the module
for each open file, to which `open` may add some of its own, and unloads the module only when there
is none.  The calls come one after the other, and a call of a file is made only while the file is
open.

`Keeps` are the conditions on the functions of a driver under which one assertion holds whenever the
module is loaded and another one whenever it is not, over any number of lives (`Keeps.run`).
-/

namespace ModuleLife

open Transition

/-- The functions of a driver: on its data `D`, on the data `F` of an open file, with what the calls
in `init` return (`E`) and with the arguments of a call (`C`). -/
structure Driver (D F E C : Type*) where
  init : E → D → Int × D
  exit : D → D
  call : C → D → F → D × F
  newFile : F
  /-- the references that `open` takes itself -/
  own : Nat

structure State (D F : Type*) where
  loaded : Bool
  refs : Nat
  /-- the files that have been opened, `none` for one that has been closed -/
  files : List (Option F)
  data : D

inductive Action (E C : Type*)
  | insmod (e : E)
  | rmmod
  | openFile
  | closeFile (i : Nat)
  | call (i : Nat) (c : C)

variable {D F E C : Type*}

def step (k : Driver D F E C) (s : State D F) : Action E C → Option (State D F)
  | .insmod e =>
    if s.loaded then none
    else some { s with loaded := decide ((k.init e s.data).1 = 0), data := (k.init e s.data).2 }
  | .rmmod =>
    if s.loaded = true ∧ s.refs = 0 then some { s with loaded := false, data := k.exit s.data }
    else none
  | .openFile =>
    if s.loaded then
      some { s with refs := s.refs + (1 + k.own), files := s.files ++ [some k.newFile] }
    else none
  | .closeFile i =>
    s.files[i]?.join.map fun _ =>
      { s with refs := s.refs - (1 + k.own), files := s.files.set i none }
  | .call i c =>
    s.files[i]?.join.map fun f =>
      { s with data := (k.call c s.data f).1, files := s.files.set i (some (k.call c s.data f).2) }

/-- The module has not been loaded yet. -/
def start (d : D) : State D F := { loaded := false, refs := 0, files := [], data := d }

/-- **The conditions on a driver**, where `U` holds while the module is not loaded, `L` while it is,
and `A` of every open file. -/
structure Keeps (k : Driver D F E C) (U L : D → Prop) (A : F → Prop) : Prop where
  init : ∀ e d, U d → if (k.init e d).1 = 0 then L (k.init e d).2 else U (k.init e d).2
  exit : ∀ d, L d → U (k.exit d)
  call : ∀ c d f, L d → A f → L (k.call c d f).1 ∧ A (k.call c d f).2
  newFile : A k.newFile

/-- How many files are open. -/
def State.opened (s : State D F) : Nat := s.files.countP Option.isSome

structure Alive (k : Driver D F E C) (U L : D → Prop) (A : F → Prop) (s : State D F) : Prop where
  refs : s.refs = s.opened * (1 + k.own)
  closed : s.loaded = false → s.opened = 0
  data : if s.loaded = true then L s.data else U s.data
  files : ∀ f, some f ∈ s.files → A f

variable {k : Driver D F E C} {U L : D → Prop} {A : F → Prop} {s t : State D F} {i : Nat} {f : F}

theorem mem_of_join (h : s.files[i]?.join = some f) : s.files[i]? = some (some f) :=
  Option.join_eq_some_iff.1 h

/-- A file that is open keeps the module loaded. -/
theorem Alive.loaded (h : Alive k U L A s) (hi : s.files[i]? = some (some f)) :
    s.loaded = true := by
  by_contra hnot
  have h0 := h.closed (by simpa using hnot)
  rw [State.opened, List.countP_eq_zero] at h0
  exact h0 _ (List.mem_of_getElem? hi) rfl

/-- Closing or changing one of the files. -/
theorem opened_set (hi : s.files[i]? = some (some f)) (g : Option F) :
    (s.files.set i g).countP Option.isSome + 1 = s.opened + if g.isSome then 1 else 0 := by
  obtain ⟨hlt, hget⟩ := List.getElem?_eq_some_iff.1 hi
  have hpos : 0 < s.opened := List.countP_pos_iff.2 ⟨_, List.mem_of_getElem? hi, rfl⟩
  rw [List.countP_set hlt, hget]
  show s.opened - 1 + _ + 1 = _
  omega

theorem Keeps.step (hk : Keeps k U L A) (h : Alive k U L A s) {a : Action E C}
    (hn : step k s a = some t) : Alive k U L A t := by
  cases a with
  | insmod e =>
    obtain ⟨hnot, ht⟩ := Option.ite_none_left_eq_some.1 hn
    cases ht
    have hclosed := h.closed (by simpa using hnot)
    have hdata := h.data
    rw [if_neg hnot] at hdata
    refine ⟨h.refs, fun _ => hclosed, ?_, h.files⟩
    show if decide _ = true then _ else _
    simp only [decide_eq_true_eq]
    exact hk.init e s.data hdata
  | rmmod =>
    obtain ⟨⟨hloaded, hrefs⟩, ht⟩ := Option.ite_none_right_eq_some.1 hn
    cases ht
    have hopened : s.opened = 0 := by
      have hmul := h.refs.symm.trans hrefs
      rcases Nat.mul_eq_zero.1 hmul with h0 | h0
      · exact h0
      · omega
    have hdata := h.data
    rw [if_pos hloaded] at hdata
    exact ⟨h.refs, fun _ => hopened, hk.exit s.data hdata, h.files⟩
  | openFile =>
    obtain ⟨hloaded, ht⟩ := Option.ite_none_right_eq_some.1 hn
    cases ht
    refine ⟨?_, fun e => ?_, h.data, fun f hf => ?_⟩
    · show s.refs + (1 + k.own) = (s.files ++ [some k.newFile]).countP Option.isSome * (1 + k.own)
      rw [List.countP_append, h.refs]
      show _ = (s.opened + 1) * _
      rw [Nat.succ_mul]
    · cases hloaded.symm.trans e
    · rcases List.mem_append.1 hf with hf | hf
      · exact h.files f hf
      · cases List.mem_singleton.1 hf
        exact hk.newFile
  | closeFile i =>
    obtain ⟨f, hf, rfl⟩ := Option.map_eq_some_iff.1 hn
    have hi := mem_of_join hf
    have hcount : _ + 1 = s.opened := opened_set hi none
    refine ⟨?_, fun e => ?_, h.data, fun g hg => ?_⟩
    · show s.refs - (1 + k.own) = (s.files.set i none).countP Option.isSome * (1 + k.own)
      rw [h.refs, ← hcount, Nat.succ_mul, Nat.add_sub_cancel]
    · cases (h.loaded hi).symm.trans e
    · rcases List.mem_or_eq_of_mem_set hg with hg | hg
      · exact h.files g hg
      · cases hg
  | call i c =>
    obtain ⟨f, hf, rfl⟩ := Option.map_eq_some_iff.1 hn
    have hi := mem_of_join hf
    have hloaded := h.loaded hi
    have hdata := h.data
    rw [if_pos hloaded] at hdata
    obtain ⟨hL, hA⟩ := hk.call c s.data f hdata (h.files f (List.mem_of_getElem? hi))
    refine ⟨?_, fun e => ?_, ?_, fun g hg => ?_⟩
    · show s.refs = (s.files.set i _).countP Option.isSome * _
      rw [Nat.succ_inj.1 (opened_set hi (some _))]
      exact h.refs
    · cases hloaded.symm.trans e
    · rw [if_pos hloaded]
      exact hL
    · rcases List.mem_or_eq_of_mem_set hg with hg | hg
      · exact h.files g hg
      · cases hg
        exact hA

/-- **What holds over all lives of the module.** -/
theorem Keeps.run (hk : Keeps k U L A) {d : D} (hd : U d)
    (hr : Reachable (ModuleLife.step k) Any (start d) s) : Alive k U L A s :=
  hr.invariant ⟨(Nat.zero_mul _).symm, fun _ => rfl, hd, fun _ hf => (by cases hf)⟩
    (fun _ _ _ h _ hn => hk.step h hn)

/-- **The module can be unloaded exactly when no file is open.** -/
theorem Alive.rmmod_iff (h : Alive k U L A s) (hloaded : s.loaded = true) :
    (ModuleLife.step k s .rmmod).isSome = true ↔ ∀ f ∈ s.files, f = none := by
  have hopened : s.opened = 0 ↔ ∀ f ∈ s.files, f = none := by
    rw [State.opened, List.countP_eq_zero]
    exact forall₂_congr (fun f _ => by cases f <;> simp)
  rw [← hopened, ModuleLife.step]
  have hrefs : s.refs = 0 ↔ s.opened = 0 := by
    rw [h.refs, Nat.mul_eq_zero, or_iff_left (by omega)]
  by_cases h0 : s.opened = 0
  · rw [if_pos ⟨hloaded, hrefs.2 h0⟩]
    exact iff_of_true rfl h0
  · rw [if_neg (fun e => h0 (hrefs.1 e.2))]
    exact iff_of_false (by simp) h0

end ModuleLife
