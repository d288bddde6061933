import EmbeddedLinux.Lib.CString
import Mathlib.Data.List.Forall2

/-!
# Shared memory objects

A shared memory object is an array of bytes that lives on when its name is taken away; the name may
then be given to another one.  A new object is empty.  It is mapped in whole pages, so an access is
a fault (`none`) behind its last page, and there is none while it is empty.

Here all those who write have the same image to write, byte by byte and in any order.  So each byte
is that of the image or still 0 (`Partial`), and what has been written stays (`Grows`).  A string in
such an array is a prefix of the string in the image (`Partial.cstr_front`).
-/

namespace SharedObjects

open CString

abbrev pageSize : Nat := 4096

/-- The objects, in the order in which they were made, and the one that has the name. -/
structure Store where
  name : Option Nat
  objs : List (List UInt8)
  deriving DecidableEq

namespace Store

def empty : Store := { name := none, objs := [] }

/-- `shm_open` with `O_CREAT`, and the object that it opens. -/
def create (m : Store) : Store × Nat :=
  match m.name with
  | some o => (m, o)
  | none => ({ name := some m.objs.length, objs := m.objs ++ [[]] }, m.objs.length)

/-- An array that is made `n` bytes long. -/
def resize (n : Nat) (b : List UInt8) : List UInt8 := b.take n ++ List.replicate (n - b.length) 0

def ftruncate (m : Store) (o n : Nat) : Store := { m with objs := m.objs.modify o (resize n) }

/-- The bytes that are mapped for an object of `len` bytes. -/
def mapped (len : Nat) : Nat := (len + (pageSize - 1)) / pageSize * pageSize

def load (m : Store) (o i : Nat) : Option UInt8 :=
  m.objs[o]?.bind (fun b => if i < mapped b.length then some (b.getD i 0) else none)

def store (m : Store) (o i : Nat) (x : UInt8) : Option Store :=
  m.objs[o]?.bind (fun b => if i < mapped b.length then
    some { m with objs := m.objs.modify o (fun b => b.set i x) } else none)

/-- Without a name, it fails and changes nothing. -/
def unlink (m : Store) : Store := { m with name := none }

end Store

theorem le_mapped (n : Nat) : n ≤ Store.mapped n := by
  show n ≤ (n + 4095) / 4096 * 4096
  omega

/-! ### An image that is being written -/

/-- Every byte is that of the image, or 0. -/
def Partial (img b : List UInt8) : Prop := List.Forall₂ (fun x y => y = x ∨ y = 0) img b

variable {img b b' got : List UInt8} {i o : Nat} {x : UInt8}

theorem Partial.length_eq (h : Partial img b) : b.length = img.length :=
  (List.Forall₂.length_eq h).symm

theorem partial_self (img : List UInt8) : Partial img img :=
  List.forall₂_same.2 (fun _ _ => Or.inl rfl)

theorem partial_zeros (img : List UInt8) : Partial img (List.replicate img.length 0) := by
  induction img with
  | nil => exact .nil
  | cons x img ih => exact .cons (Or.inr rfl) ih

/-- A byte of the image is written. -/
theorem Partial.set (h : Partial img b) (hx : img[i]? = some x) : Partial img (b.set i x) := by
  induction h generalizing i with
  | nil => cases hx
  | cons hy h ih =>
    cases i with
    | zero =>
      cases hx
      exact .cons (Or.inl rfl) h
    | succ i => exact .cons hy (ih hx)

/-- The bytes are read one after the other. -/
theorem Partial.snoc (h : Partial (img.take i) got) (hx : img[i]? = some x) {y : UInt8}
    (hy : y = x ∨ y = 0) : Partial (img.take (i + 1)) (got ++ [y]) := by
  rw [List.take_add_one, hx]
  exact List.rel_append h (.cons hy .nil)

theorem Partial.getElem? (h : Partial img b) (hx : img[i]? = some x) :
    ∃ y, b[i]? = some y ∧ (y = x ∨ y = 0) := by
  induction h generalizing i with
  | nil => cases hx
  | cons hy h ih =>
    cases i with
    | zero =>
      cases hx
      exact ⟨_, rfl, hy⟩
    | succ i => exact ih hx

theorem Partial.take (h : Partial img b) (n : Nat) : Partial (img.take n) (b.take n) :=
  List.forall₂_take n h

theorem Partial.drop (h : Partial img b) (n : Nat) : Partial (img.drop n) (b.drop n) :=
  List.forall₂_drop n h

/-- **A string that is being written** is a prefix of what it will be. -/
theorem Partial.cstr_front (h : Partial img b) : cstr b <+: cstr img := by
  induction h with
  | nil => exact List.prefix_rfl
  | @cons x y img b hy h ih =>
    by_cases h0 : y = 0
    · rw [h0, cstr_cons_zero]
      exact List.nil_prefix
    · have hyx := hy.resolve_right h0
      rw [← hyx, cstr_cons h0, cstr_cons h0]
      exact (List.prefix_cons_inj y).2 ih

/-! ### The objects while they are written -/

variable {m m' : Store}

/-- Every object is empty or partly written, and the name is that of an object. -/
structure Inv (img : List UInt8) (m : Store) : Prop where
  written : ∀ (o : Nat) (b : List UInt8), m.objs[o]? = some b → b = [] ∨ Partial img b
  named : ∀ o, m.name = some o → o < m.objs.length

/-- No object is lost, and what has been written stays. -/
structure Grows (img : List UInt8) (m m' : Store) : Prop where
  length_le : m.objs.length ≤ m'.objs.length
  keeps : ∀ (o : Nat) (b : List UInt8), m.objs[o]? = some b → Partial img b →
    ∃ b' : List UInt8, m'.objs[o]? = some b' ∧ Partial img b' ∧
      ∀ i : Nat, b[i]? = img[i]? → b'[i]? = img[i]?

theorem grows_refl (img : List UInt8) (m : Store) : Grows img m m :=
  ⟨Nat.le_refl _, fun _ b hb hp => ⟨b, hb, hp, fun _ h => h⟩⟩

theorem inv_empty (img : List UInt8) : Inv img .empty :=
  ⟨fun o b h => (by cases h), fun o h => (by cases h)⟩

theorem create_spec (hm : Inv img m) :
    Inv img m.create.1 ∧ Grows img m m.create.1 ∧ m.create.2 < m.create.1.objs.length := by
  unfold Store.create
  split
  · rename_i o ho
    exact ⟨hm, grows_refl img m, hm.named o ho⟩
  · have hlt : m.objs.length < (m.objs ++ [[]]).length := by
      rw [List.length_append]
      exact Nat.lt_succ_self _
    refine ⟨⟨fun o b hb => ?_, fun o ho => ?_⟩, ⟨hlt.le, fun o b hb hp => ?_⟩, hlt⟩
    · obtain hb | hb := List.mem_append.1 (List.mem_of_getElem? hb)
      · obtain ⟨n, hn⟩ := List.getElem?_of_mem hb
        exact hm.written n b hn
      · exact Or.inl (List.mem_singleton.1 hb)
    · cases ho
      exact hlt
    · refine ⟨b, ?_, hp, fun _ h => h⟩
      rw [List.getElem?_append_left (List.getElem?_eq_some_iff.1 hb).1]
      exact hb

/-- A change of one object. -/
theorem modify_spec {f : List UInt8 → List UInt8} (hm : Inv img m)
    (hempty : m.objs[o]? = some [] → f [] = [] ∨ Partial img (f []))
    (hpart : ∀ b, Partial img b → Partial img (f b) ∧
      ∀ i : Nat, b[i]? = img[i]? → (f b)[i]? = img[i]?) :
    Inv img { m with objs := m.objs.modify o f } ∧
      Grows img m { m with objs := m.objs.modify o f } := by
  have hlen : (m.objs.modify o f).length = m.objs.length := List.length_modify ..
  refine ⟨⟨fun q b hb => ?_, fun q hq => ?_⟩, ⟨hlen.ge, fun q b hb hp => ?_⟩⟩
  · change (m.objs.modify o f)[q]? = some b at hb
    rw [List.getElem?_modify] at hb
    obtain ⟨c, hc, rfl⟩ := Option.map_eq_some_iff.1 hb
    split
    · rename_i hoq
      subst hoq
      obtain rfl | hp := hm.written o c hc
      · exact hempty hc
      · exact Or.inr (hpart c hp).1
    · exact hm.written q c hc
  · show q < (m.objs.modify o f).length
    rw [hlen]
    exact hm.named q hq
  · show ∃ b', (m.objs.modify o f)[q]? = some b' ∧ _
    rw [List.getElem?_modify, hb]
    refine ⟨_, rfl, ?_⟩
    split
    · exact hpart b hp
    · exact ⟨hp, fun _ h => h⟩

/-- `ftruncate` to the length of the image. -/
theorem ftruncate_spec (hm : Inv img m) (ho : o < m.objs.length) :
    Inv img (m.ftruncate o img.length) ∧ Grows img m (m.ftruncate o img.length) ∧
      ∃ b, (m.ftruncate o img.length).objs[o]? = some b ∧ Partial img b := by
  have hresize : ∀ b, Partial img b → Store.resize img.length b = b := by
    intro b hp
    rw [Store.resize, ← hp.length_eq, List.take_length, Nat.sub_self]
    exact List.append_nil b
  have hempty : Partial img (Store.resize img.length []) := by
    rw [Store.resize, List.take_nil]
    exact partial_zeros img
  obtain ⟨hinv, hgrows⟩ := modify_spec (o := o) (f := Store.resize img.length) hm
    (fun _ => Or.inr hempty) (fun b hp => by
      rw [hresize b hp]
      exact ⟨hp, fun _ h => h⟩)
  refine ⟨hinv, hgrows, Store.resize img.length m.objs[o], ?_, ?_⟩
  · show (m.objs.modify o _)[o]? = _
    rw [List.getElem?_modify, List.getElem?_eq_getElem ho]
    simp
  · obtain h | hp := hm.written o _ (List.getElem?_eq_getElem ho)
    · rw [h]
      exact hempty
    · rw [hresize _ hp]
      exact hp

/-- A byte of the image is stored in an object that has its length. -/
theorem store_spec (hm : Inv img m) (hb : m.objs[o]? = some b) (hp : Partial img b)
    (hx : img[i]? = some x) :
    ∃ m', m.store o i x = some m' ∧ Inv img m' ∧ Grows img m m' ∧
      m'.objs[o]? = some (b.set i x) := by
  have hi : i < b.length := hp.length_eq ▸ (List.getElem?_eq_some_iff.1 hx).1
  have hstore : m.store o i x = some { m with objs := m.objs.modify o (fun b => b.set i x) } := by
    rw [Store.store, hb, Option.bind_some, if_pos (hi.trans_le (le_mapped _))]
  obtain ⟨hinv, hgrows⟩ := modify_spec (o := o) (f := fun b => b.set i x) hm
    (fun _ => Or.inl rfl) (fun b hp => ⟨hp.set hx, fun j hj => by
      rw [List.getElem?_set]
      split
      · rename_i hij
        subst hij
        rw [if_pos (hp.length_eq ▸ (List.getElem?_eq_some_iff.1 hx).1), hx]
      · exact hj⟩)
  refine ⟨_, hstore, hinv, hgrows, ?_⟩
  show (m.objs.modify o _)[o]? = _
  rw [List.getElem?_modify, hb]
  simp

theorem unlink_spec (hm : Inv img m) : Inv img m.unlink ∧ Grows img m m.unlink :=
  ⟨⟨hm.written, fun o ho => (by cases ho)⟩, Nat.le_refl _,
    fun _ b hb hp => ⟨b, hb, hp, fun _ h => h⟩⟩

/-- A load from an object that has the length of the image. -/
theorem load_spec (hb : m.objs[o]? = some b) (hp : Partial img b) (hi : i < img.length) :
    ∃ y, m.load o i = some y ∧ b[i]? = some y := by
  have hib : i < b.length := hp.length_eq ▸ hi
  refine ⟨b[i], ?_, List.getElem?_eq_getElem hib⟩
  rw [Store.load, hb, Option.bind_some, if_pos (hib.trans_le (le_mapped _))]
  simp [hib]

/-- Where there is a byte, the object has the length of the image. -/
theorem partial_of_load (hm : Inv img m) {y : UInt8} (h : m.load o i = some y) :
    ∃ b, m.objs[o]? = some b ∧ Partial img b := by
  unfold Store.load at h
  obtain ⟨b, hb, h⟩ := Option.bind_eq_some_iff.1 h
  obtain rfl | hp := hm.written o b hb
  · have hnot : ¬ i < Store.mapped 0 := Nat.not_lt_zero i
    cases (if_neg hnot).symm.trans h
  · exact ⟨b, hb, hp⟩

end SharedObjects
