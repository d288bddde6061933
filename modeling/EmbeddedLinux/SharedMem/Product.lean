import EmbeddedLinux.Lib.Interference
import EmbeddedLinux.Lib.SharedObjects
import EmbeddedLinux.Lib.Stdio

/-!
# A product in shared memory

A producer makes the object, gives it the size of a `Product`, maps it and writes a product
into it.  A consumer opens the object, maps it, reads the product and takes the name away.  There
may be any number of both, and nothing keeps a consumer from reading while a producer writes.  The
stores of a producer come in any order, byte by byte.

A producer always finds its product in the object.  What a consumer prints is the product, with some
of its bytes missing: its `id` is 101 or 0, its name a prefix of the name, and each byte of its
price that of the price or 0.  A consumer that has opened an object in which a producer has written
all is not killed and prints the product (`product_printed`).  One that reads an object before its
producer has given it a size is killed.
-/

namespace EmbeddedLinux.SharedMem

open CString Stdio SharedObjects Interference Transition

abbrev nameSize : Nat := 64

/-- `sizeof(Product)` -/
abbrev productSize : Nat := 72

/-- The price is a `float`, given by its bits. -/
structure Product where
  id : Int
  name : List UInt8
  price : Nat
  deriving DecidableEq

/-- The low `w` bytes, the lowest first. -/
def bytes : (w : Nat) → Nat → List UInt8
  | 0, _ => []
  | w + 1, n => UInt8.ofNat n :: bytes w (n / 256)

def value : List UInt8 → Nat
  | [] => 0
  | x :: b => x.toNat + 256 * value b

/-- What `strncpy` makes of the array. -/
def strncpy (s : List UInt8) (n : Nat) : List UInt8 := s.take n ++ List.replicate (n - s.length) 0

/-- `ptr->id`, `ptr->name` and `ptr->price`. -/
def encode (p : Product) : List UInt8 :=
  bytes 4 (p.id % 4294967296).toNat ++ strncpy p.name nameSize ++ bytes 4 p.price

/-- What is printed of the bytes `b`. -/
def decode (b : List UInt8) : Product :=
  { id := wrapInt (value (b.take 4)), name := cstr (b.drop 4),
    price := value (b.drop (4 + nameSize)) }

/-- 2499.99f is 0x451c3fd7. -/
def product : Product := { id := 101, name := text "MacBook Pro M3", price := 0x451c3fd7 }

def image : List UInt8 := encode product

theorem length_image : image.length = productSize := by decide

theorem decode_image : decode image = product := by decide

/-! ### The programs -/

inductive Role
  | producer
  | consumer
  deriving DecidableEq

inductive Input
  /-- what the next call returns -/
  | call (success : Bool)
  /-- the next byte that is stored -/
  | byte (i : Nat)

/-- Where a process is. -/
inductive Pc
  /-- the producer -/
  | creating
  | truncating (o : Nat)
  | mapping (o : Nat)
  /-- these bytes are still to be stored -/
  | writing (o : Nat) (left : List Nat)
  | showing (o : Nat) (got : List UInt8)
  | shown (o : Nat) (got : List UInt8)
  /-- the consumer -/
  | opening
  | mappingRead (o : Nat)
  | reading (o : Nat) (got : List UInt8)
  | unlinking (got : List UInt8)
  | printed (got : List UInt8)
  /-- either of the two, which ends with 1 or is killed -/
  | failed
  | sigbus (writing : Bool)

/-- The next byte is read, and after the last one `k` follows. -/
def readNext (m : Store) (o : Nat) (got : List UInt8) (more k : List UInt8 → Pc) : Store × Pc :=
  if got.length < productSize then
    match m.load o got.length with
    | some x => (m, more (got ++ [x]))
    | none => (m, .sigbus false)
  else (m, k got)

variable {T : Type*}

def step (_ : T) (e : Input) (m : Store) (pc : Pc) : Option (Store × Pc) :=
  match pc, e with
  | .creating, .call success =>
    some (if success then (m.create.1, .truncating m.create.2) else (m, .failed))
  | .truncating o, .call success =>
    some (if success then (m.ftruncate o productSize, .mapping o) else (m, .failed))
  | .mapping o, .call success =>
    some (m, if success then .writing o (List.range productSize) else .failed)
  | .writing o left, .byte i =>
    if i ∈ left then
      some (match m.store o i (image.getD i 0) with
        | some m' => (m', .writing o (left.erase i))
        | none => (m, .sigbus true))
    else none
  | .writing o [], .call _ => some (m, .showing o [])
  | .showing o got, .call _ => some (readNext m o got (.showing o) (.shown o))
  | .opening, .call success =>
    some (m, match m.name with
      | some o => if success then .mappingRead o else .failed
      | none => .failed)
  | .mappingRead o, .call success => some (m, if success then .reading o [] else .failed)
  | .reading o got, .call _ => some (readNext m o got (.reading o) .unlinking)
  | .unlinking got, .call _ => some (m.unlink, .printed got)
  | _, _ => none

def Role.start : Role → Pc
  | .producer => .creating
  | .consumer => .opening

def initial (role : T → Role) : State T Store Pc :=
  { mem := .empty, pc := fun t => (role t).start }

/-! ### The outline -/

/-- All bytes but those that are left have been stored. -/
def Stored (m : Store) (o : Nat) (left : List Nat) : Prop :=
  ∃ b : List UInt8, m.objs[o]? = some b ∧ Partial image b ∧ ∀ i ∉ left, b[i]? = image[i]?

def Assertion (_ : T) (pc : Pc) (m : Store) : Prop :=
  match pc with
  | .truncating o | .mappingRead o => o < m.objs.length
  | .mapping o => Stored m o (List.range productSize)
  | .writing o left => Stored m o left ∧ ∀ i ∈ left, i < productSize
  | .showing o got => Stored m o [] ∧ got = image.take got.length ∧ got.length ≤ productSize
  | .shown o got => Stored m o [] ∧ got = image
  | .reading o got =>
    o < m.objs.length ∧ Partial (image.take got.length) got ∧ got.length ≤ productSize
  | .unlinking got | .printed got => Partial image got
  | .sigbus writing => writing = false
  | .creating | .opening | .failed => True

variable {m m' : Store} {t : T} {e : Input} {pc pc' : Pc} {o : Nat} {got : List UInt8}
  {left : List Nat}

theorem Stored.mono (h : Stored m o left) (hg : Grows image m m') : Stored m' o left := by
  obtain ⟨b, hb, hp, hleft⟩ := h
  obtain ⟨b', hb', hp', hkeep⟩ := hg.keeps o b hb hp
  exact ⟨b', hb', hp', fun i hi => hkeep i (hleft i hi)⟩

theorem Stored.whole (h : Stored m o []) : m.objs[o]? = some image := by
  obtain ⟨b, hb, -, hall⟩ := h
  rw [hb, List.ext_getElem? (fun i => hall i List.not_mem_nil)]

/-- The others only add to what has been written. -/
theorem Assertion.mono (h : Assertion t pc m) (hg : Grows image m m') : Assertion t pc m' := by
  cases pc with
  | truncating o | mappingRead o => exact Nat.lt_of_lt_of_le h hg.length_le
  | mapping o => exact Stored.mono h hg
  | writing o left => exact ⟨h.1.mono hg, h.2⟩
  | showing o got => exact ⟨h.1.mono hg, h.2⟩
  | shown o got => exact ⟨h.1.mono hg, h.2⟩
  | reading o got => exact ⟨Nat.lt_of_lt_of_le h.1 hg.length_le, h.2⟩
  | _ => exact h

/-- One more byte of the image, with those before it. -/
theorem take_snoc {x : UInt8} (hx : image[got.length]? = some x)
    (hgot : got = image.take got.length) :
    got ++ [x] = image.take (got ++ [x]).length := by
  rw [List.length_append, List.length_singleton, List.take_add_one, hx, ← hgot]
  rfl

theorem image_lt {i : Nat} (hi : i < productSize) : ∃ x, image[i]? = some x := by
  rw [← length_image] at hi
  exact ⟨_, List.getElem?_eq_getElem hi⟩

/-- Reading from an object in which all has been written. -/
theorem readNext_stored {more k : List UInt8 → Pc} (ho : Stored m o [])
    (hgot : got = image.take got.length) (hle : got.length ≤ productSize)
    (h : readNext m o got more k = (m', pc')) :
    m' = m ∧ ((∃ x, got ++ [x] = image.take (got ++ [x]).length ∧
      (got ++ [x]).length ≤ productSize ∧ pc' = more (got ++ [x])) ∨
      got = image ∧ pc' = k got) := by
  unfold readNext at h
  split at h
  · rename_i hlt
    obtain ⟨y, hload, hy⟩ := load_spec ho.whole (partial_self image)
      (Nat.lt_of_lt_of_eq hlt length_image.symm)
    rw [hload] at h
    cases h
    refine ⟨rfl, Or.inl ⟨y, take_snoc hy hgot, ?_, rfl⟩⟩
    rw [List.length_append, List.length_singleton]
    exact hlt
  · rename_i hlt
    cases h
    have hlen : got.length = image.length := by
      rw [length_image]
      omega
    refine ⟨rfl, Or.inr ⟨?_, rfl⟩⟩
    rw [hlen, List.take_length] at hgot
    exact hgot

/-- Reading from any object. -/
theorem readNext_partial {more k : List UInt8 → Pc} (hm : Inv image m)
    (hgot : Partial (image.take got.length) got) (hle : got.length ≤ productSize)
    (h : readNext m o got more k = (m', pc')) :
    m' = m ∧ ((∃ x, Partial (image.take (got ++ [x]).length) (got ++ [x]) ∧
      (got ++ [x]).length ≤ productSize ∧ pc' = more (got ++ [x])) ∨
      Partial image got ∧ pc' = k got ∨ pc' = .sigbus false) := by
  unfold readNext at h
  split at h
  · rename_i hlt
    split at h
    · rename_i y hload
      cases h
      obtain ⟨b, hb, hp⟩ := partial_of_load hm hload
      obtain ⟨y', hload', hy⟩ := load_spec hb hp (Nat.lt_of_lt_of_eq hlt length_image.symm)
      cases hload.symm.trans hload'
      obtain ⟨x, hx⟩ := image_lt hlt
      obtain ⟨z, hz, hzx⟩ := hp.getElem? hx
      cases hy.symm.trans hz
      refine ⟨rfl, Or.inl ⟨y, ?_, ?_, rfl⟩⟩
      · rw [List.length_append, List.length_singleton]
        exact hgot.snoc hx hzx
      · rw [List.length_append, List.length_singleton]
        exact hlt
    · cases h
      exact ⟨rfl, Or.inr (Or.inr rfl)⟩
  · rename_i hlt
    cases h
    have hlen : got.length = image.length := by
      rw [length_image]
      omega
    refine ⟨rfl, Or.inr (Or.inl ⟨?_, rfl⟩)⟩
    rw [hlen, List.take_length] at hgot
    exact hgot

/-- A byte is stored. -/
theorem store_own {i : Nat} (hm : Inv image m) (hs : Stored m o left)
    (hlt : ∀ j ∈ left, j < productSize) (hi : i ∈ left) :
    ∃ m', m.store o i (image.getD i 0) = some m' ∧ Inv image m' ∧ Grows image m m' ∧
      Stored m' o (left.erase i) := by
  obtain ⟨x, hx⟩ := image_lt (hlt i hi)
  obtain ⟨b, hb, hp, hleft⟩ := hs
  have hget : image.getD i 0 = x := by
    rw [List.getD_eq_getElem?_getD, hx]
    rfl
  obtain ⟨m', hstore, hinv, hgrows, hb'⟩ := store_spec hm hb hp hx
  rw [hget]
  refine ⟨m', hstore, hinv, hgrows, b.set i x, hb', hp.set hx, fun j hj => ?_⟩
  by_cases hji : j = i
  · subst hji
    rw [hx, List.getElem?_set_self (hp.length_eq ▸ (List.getElem?_eq_some_iff.1 hx).1)]
  · rw [List.getElem?_set_ne (Ne.symm hji)]
    exact hleft j (fun hmem => hj ((List.mem_erase_of_ne hji).2 hmem))

theorem step_own (hm : Inv image m) (ha : Assertion t pc m) (h : step t e m pc = some (m', pc')) :
    Inv image m' ∧ Grows image m m' ∧ Assertion t pc' m' := by
  have hrefl := grows_refl image m
  unfold step at h
  split at h
  · -- creating
    rename_i success
    cases success with
    | true =>
      cases h
      exact create_spec hm
    | false =>
      cases h
      exact ⟨hm, hrefl, trivial⟩
  · -- truncating
    rename_i o success
    cases success with
    | true =>
      cases h
      obtain ⟨hinv, hgrows, b, hb, hp⟩ := ftruncate_spec hm ha
      rw [length_image] at hinv hgrows hb
      refine ⟨hinv, hgrows, b, hb, hp, fun i hi => ?_⟩
      rw [List.mem_range, Nat.not_lt, ← length_image] at hi
      rw [List.getElem?_eq_none hi, List.getElem?_eq_none (hp.length_eq.trans_le hi)]
    | false =>
      cases h
      exact ⟨hm, hrefl, trivial⟩
  · -- mapping
    rename_i o success
    cases success with
    | true =>
      cases h
      exact ⟨hm, hrefl, ha, fun i hi => List.mem_range.1 hi⟩
    | false =>
      cases h
      exact ⟨hm, hrefl, trivial⟩
  · -- writing
    rename_i o left i
    split at h
    · rename_i hi
      obtain ⟨m₁, hstore, hinv, hgrows, hstored⟩ := store_own hm ha.1 ha.2 hi
      rw [hstore] at h
      cases h
      exact ⟨hinv, hgrows, hstored, fun j hj => ha.2 j (List.mem_of_mem_erase hj)⟩
    · cases h
  · -- all written
    cases h
    exact ⟨hm, hrefl, ha.1, rfl, Nat.zero_le _⟩
  · -- showing
    rename_i o got _
    obtain ⟨hs, hgot, hle⟩ := ha
    obtain ⟨rfl, ⟨x, hx, hlen, rfl⟩ | ⟨himage, rfl⟩⟩ :=
      readNext_stored hs hgot hle (Option.some.inj h)
    · exact ⟨hm, hrefl, hs, hx, hlen⟩
    · exact ⟨hm, hrefl, hs, himage⟩
  · -- opening
    rename_i success
    cases h
    refine ⟨hm, hrefl, ?_⟩
    cases hname : m.name with
    | none => trivial
    | some o =>
      cases success with
      | true => exact hm.named o hname
      | false => trivial
  · -- mapping to read
    rename_i o success
    cases success with
    | true =>
      cases h
      exact ⟨hm, hrefl, ha, .nil, Nat.zero_le _⟩
    | false =>
      cases h
      exact ⟨hm, hrefl, trivial⟩
  · -- reading
    rename_i o got _
    obtain ⟨ho, hgot, hle⟩ := ha
    obtain ⟨rfl, ⟨x, hx, hlen, rfl⟩ | ⟨hp, rfl⟩ | rfl⟩ :=
      readNext_partial hm hgot hle (Option.some.inj h)
    · exact ⟨hm, hrefl, ho, hx, hlen⟩
    · exact ⟨hm, hrefl, hp⟩
    · exact ⟨hm, hrefl, rfl⟩
  · -- unlinking
    cases h
    obtain ⟨hinv, hgrows⟩ := unlink_spec hm
    exact ⟨hinv, hgrows, ha⟩
  · cases h

/-- **The proof outline of the two programs.** -/
theorem outline [DecidableEq T] :
    Outline (step (T := T)) (fun _ _ _ _ => True) (Inv image) Assertion where
  own t e m pc m' pc' hm ha _ h := by
    obtain ⟨hinv, -, ha'⟩ := step_own hm ha h
    exact ⟨hinv, ha'⟩
  others t e m pc m' pc' u k _ hm ha hu _ h := Assertion.mono hu (step_own hm ha h).2.1

/-! ### Who may be killed -/

/-- The place is one of this program; a producer is killed in none of them. -/
def Role.At : Role → Pc → Prop
  | .producer, .creating | .producer, .truncating _ | .producer, .mapping _
  | .producer, .writing _ _ | .producer, .showing _ _ | .producer, .shown _ _
  | .producer, .failed => True
  | .consumer, .opening | .consumer, .mappingRead _ | .consumer, .reading _ _
  | .consumer, .unlinking _ | .consumer, .printed _ | .consumer, .failed
  | .consumer, .sigbus false => True
  | _, _ => False

theorem role_step {r : Role} (hm : Inv image m) (ha : Assertion t pc m) (hr : r.At pc)
    (h : step t e m pc = some (m', pc')) : r.At pc' := by
  unfold step at h
  split at h
  · -- creating
    rename_i success
    cases r with
    | producer => cases success <;> cases h <;> trivial
    | consumer => exact hr.elim
  · -- truncating
    rename_i o success
    cases r with
    | producer => cases success <;> cases h <;> trivial
    | consumer => exact hr.elim
  · -- mapping
    rename_i o success
    cases r with
    | producer => cases success <;> cases h <;> trivial
    | consumer => exact hr.elim
  · -- writing
    rename_i o left i
    cases r with
    | producer =>
      split at h
      · rename_i hi
        obtain ⟨m₁, hstore, -⟩ := store_own hm ha.1 ha.2 hi
        rw [hstore] at h
        cases h
        trivial
      · cases h
    | consumer => exact hr.elim
  · -- all written
    cases r with
    | producer =>
      cases h
      trivial
    | consumer => exact hr.elim
  · -- showing
    rename_i o got _
    cases r with
    | producer =>
      obtain ⟨hs, hgot, hle⟩ := ha
      obtain ⟨-, ⟨x, -, -, rfl⟩ | ⟨-, rfl⟩⟩ := readNext_stored hs hgot hle (Option.some.inj h)
      · trivial
      · trivial
    | consumer => exact hr.elim
  · -- opening
    rename_i success
    cases r with
    | producer => exact hr.elim
    | consumer =>
      cases h
      cases m.name <;> cases success <;> trivial
  · -- mapping to read
    rename_i o success
    cases r with
    | producer => exact hr.elim
    | consumer => cases success <;> cases h <;> trivial
  · -- reading
    rename_i o got _
    cases r with
    | producer => exact hr.elim
    | consumer =>
      obtain ⟨ho, hgot, hle⟩ := ha
      obtain ⟨-, ⟨x, -, -, rfl⟩ | ⟨-, rfl⟩ | rfl⟩ :=
        readNext_partial hm hgot hle (Option.some.inj h)
      · trivial
      · trivial
      · trivial
  · -- unlinking
    cases r with
    | producer => exact hr.elim
    | consumer =>
      cases h
      trivial
  · cases h

theorem holds_run [DecidableEq T] {role : T → Role} {s : State T Store Pc}
    (hr : Reachable (next step) Any (initial role) s) :
    Holds (Inv image) Assertion s ∧ ∀ t, (role t).At (s.pc t) := by
  refine hr.invariant (P := fun s => Holds (Inv image) Assertion s ∧ ∀ t, (role t).At (s.pc t))
    ⟨⟨inv_empty image, fun t => ?_⟩, fun t => ?_⟩ (fun s a s' hs _ hn => ?_)
  · show Assertion t (role t).start _
    cases role t <;> exact trivial
  · show (role t).At (role t).start
    cases role t <;> exact trivial
  · obtain ⟨hs, hat⟩ := hs
    have hs' := outline.keep hs (a := a) trivial hn
    obtain ⟨m', pc', hstep, rfl⟩ := next_eq_some.1 hn
    refine ⟨hs', fun t => ?_⟩
    by_cases ht : t = a.1
    · subst ht
      rw [State.move_self]
      exact role_step hs.1 (hs.2 a.1) (hat a.1) hstep
    · rw [State.move_of_ne ht]
      exact hat t

/-! ### A consumer of a product that has been written -/

/-- The consumer has opened the object `o`, and what it has read is right. -/
def Caught (o : Nat) : Pc → Prop
  | .mappingRead o' => o' = o
  | .reading o' got => o' = o ∧ got = image.take got.length ∧ got.length ≤ productSize
  | .unlinking got | .printed got => got = image
  | .failed => True
  | _ => False

theorem caught_step (ho : Stored m o []) (hc : Caught o pc) (h : step t e m pc = some (m', pc')) :
    Caught o pc' := by
  unfold step at h
  split at h
  case h_8 =>
    rename_i o' success
    cases hc
    cases success with
    | true =>
      cases h
      exact ⟨rfl, rfl, Nat.zero_le _⟩
    | false =>
      cases h
      trivial
  case h_9 =>
    rename_i o' got _
    obtain ⟨rfl, hgot, hle⟩ := hc
    obtain ⟨-, ⟨x, hx, hlen, rfl⟩ | ⟨himage, rfl⟩⟩ :=
      readNext_stored ho hgot hle (Option.some.inj h)
    · exact ⟨rfl, hx, hlen⟩
    · exact himage
  case h_10 =>
    cases h
    exact hc
  case h_11 => cases h
  all_goals exact hc.elim

variable [DecidableEq T] {s u : State T Store Pc}

theorem caught_run (hs : Holds (Inv image) Assertion s) (ho : Stored s.mem o [])
    (hc : Caught o (s.pc t)) (hr : Reachable (next step) Any s u) : Caught o (u.pc t) := by
  have hall := hr.invariant (P := fun u => Holds (Inv image) Assertion u ∧ Stored u.mem o [] ∧
    Caught o (u.pc t)) ⟨hs, ho, hc⟩ (fun v a w hv _ hn => ?_)
  · exact hall.2.2
  · obtain ⟨hs, ho, hc⟩ := hv
    have hw := outline.keep hs (a := a) trivial hn
    obtain ⟨m', pc', hstep, rfl⟩ := next_eq_some.1 hn
    obtain ⟨-, hgrows, -⟩ := step_own hs.1 (hs.2 a.1) hstep
    refine ⟨hw, ho.mono hgrows, ?_⟩
    by_cases ht : t = a.1
    · subst ht
      rw [State.move_self]
      exact caught_step ho hc hstep
    · rw [State.move_of_ne ht]
      exact hc

/-! ### The main result -/

theorem decode_id (h : Partial image got) : (decode got).id = 101 ∨ (decode got).id = 0 := by
  have himage : image.take 4 = [101, 0, 0, 0] := by decide
  have hid : Partial [101, 0, 0, 0] (got.take 4) :=
    Eq.subst (motive := fun l => Partial l (got.take 4)) himage (h.take 4)
  dsimp only [decode]
  generalize got.take 4 = b at hid
  cases hid with
  | cons h0 h1 =>
    cases h1 with
    | cons h1 h2 =>
      cases h2 with
      | cons h2 h3 =>
        cases h3 with
        | cons h3 h4 =>
          cases h4
          rw [or_self_iff] at h1 h2 h3
          subst h1 h2 h3
          have h101 : wrapInt (value [101, 0, 0, 0]) = 101 := by decide
          have hzero : wrapInt (value [0, 0, 0, 0]) = 0 := by decide
          obtain rfl | rfl := h0
          · exact Or.inl h101
          · exact Or.inr hzero

theorem decode_name (h : Partial image got) : (decode got).name <+: product.name := by
  have hname : cstr (image.drop 4) = product.name := by decide
  rw [← hname]
  exact (h.drop 4).cstr_front

/-- Each byte of the price is that of the price, or 0. -/
theorem decode_price (h : Partial image got) :
    ∃ b, Partial (bytes 4 product.price) b ∧ (decode got).price = value b := by
  have hprice : image.drop (4 + nameSize) = bytes 4 product.price := by decide
  refine ⟨got.drop (4 + nameSize), ?_, rfl⟩
  rw [← hprice]
  exact h.drop _

/-- **What is printed.**  In every state that is reached, with any number of producers and
consumers: a producer has found its product in the object, and is not killed, neither when it writes
nor when it reads back; what a consumer has printed is the product with some of its bytes missing,
in the number, in the name and in the price.  And a consumer that opens an object in which some
producer has written all is not killed, and prints the product. -/
theorem product_printed {role : T → Role} (hr : Reachable (next step) Any (initial role) s)
    (t : T) :
    (∀ o got, s.pc t = .shown o got → decode got = product) ∧
    (∀ writing, s.pc t = .sigbus writing → role t = .consumer ∧ writing = false) ∧
    (∀ got, s.pc t = .printed got →
      ((decode got).id = 101 ∨ (decode got).id = 0) ∧ (decode got).name <+: product.name ∧
        ∃ b, Partial (bytes 4 product.price) b ∧ (decode got).price = value b) ∧
    ∀ o p got, s.pc t = .mappingRead o → s.pc p = .showing o got ∨ s.pc p = .shown o got →
      ∀ u, Reachable (next step) Any s u → u.pc t ≠ .sigbus false ∧
        ∀ got, u.pc t = .printed got → decode got = product := by
  obtain ⟨hs, hat⟩ := holds_run hr
  have ht := hs.2 t
  refine ⟨fun o got hpc => ?_, fun writing hpc => ?_, fun got hpc => ?_,
    fun o p got hpc hp u hu => ?_⟩
  · rw [hpc] at ht
    rw [ht.2]
    exact decode_image
  · have hrole := hat t
    rw [hpc] at hrole ht
    refine ⟨?_, ht⟩
    cases hproducer : role t with
    | consumer => rfl
    | producer =>
      rw [hproducer] at hrole
      exact hrole.elim
  · rw [hpc] at ht
    exact ⟨decode_id ht, decode_name ht, decode_price ht⟩
  · have hstored : Stored s.mem o [] := by
      have hwriter := hs.2 p
      obtain h | h := hp
      · rw [h] at hwriter
        exact hwriter.1
      · rw [h] at hwriter
        exact hwriter.1
    have hcaught : Caught o (s.pc t) := by
      rw [hpc]
      exact rfl
    have hend := caught_run hs hstored hcaught hu
    refine ⟨fun hkilled => ?_, fun got hprinted => ?_⟩
    · rw [hkilled] at hend
      exact hend
    · rw [hprinted] at hend
      rw [show got = image from hend]
      exact decode_image

def oneOfEach (first : Bool) : Role := if first then .producer else .consumer

set_option maxRecDepth 4000 in
/-- The consumer opens the object when all has been written. -/
theorem product_printed_after : ∃ s u, exec (next step) (initial oneOfEach)
      (List.replicate 3 (true, .call true) ++ (List.range 72).map (fun i => (true, .byte i)) ++
        [(true, .call true), (false, .call true)]) = some s ∧
    exec (next step) s (List.replicate 75 (false, .call true)) = some u ∧
    ∃ got, u.pc false = .printed got ∧ decode got = product := by
  have hr : Run (next step) Any (initial oneOfEach)
      (List.replicate 3 (true, .call true) ++ (List.range 72).map (fun i => (true, .byte i)) ++
        [(true, .call true), (false, .call true)]) _ := exec_run rfl
  obtain ⟨-, -, -, hcaught⟩ := product_printed ⟨_, hr⟩ false
  obtain ⟨-, hprinted⟩ := hcaught 0 true [] rfl (Or.inl rfl) _
    ⟨List.replicate 75 (false, .call true), exec_run rfl⟩
  exact ⟨_, _, rfl, rfl, _, rfl, hprinted _ rfl⟩

/-- The consumer reads an object that is still empty. -/
example : ∃ s, exec (next step) (initial oneOfEach)
    [(true, .call true), (false, .call true), (false, .call true), (false, .call true)] = some s ∧
      s.pc false = .sigbus false :=
  ⟨_, rfl, rfl⟩

end EmbeddedLinux.SharedMem
