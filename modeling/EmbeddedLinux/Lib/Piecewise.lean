import Mathlib.Data.List.Forall2
import Mathlib.Data.List.TakeDrop

/-!
# Reading a text piece by piece

A `read` takes a call in a state and answers with a piece: a count, or a negative error, and the
bytes that it has copied.  `reads` makes calls one after the other.

`Serves text len pos` says what a call for `len` bytes should do at the offset `pos` of a text.
Calls that do it give the text from the offset on, in order and each byte once
(`reads_serves`), and only the end of the text stops them (`Serves.ret_eq_zero`,
`reads_progress`).
-/

namespace Piecewise

variable {α ι σ : Type*}

/-- A call asks for `len` bytes, and the program's memory has room for `room` bytes there. -/
structure Call where
  len : UInt64
  room : Nat

/-- The bytes it asks for. -/
def Call.size (c : Call) : Nat := c.len.toNat

/-- `copy_to_user`: what it copies, and how many bytes it could not copy. -/
def copyToUser (room : Nat) (data : List α) : List α × Nat := (data.take room, data.length - room)

structure Piece (α : Type*) where
  ret : Int
  copied : List α

/-- What the program has then, which takes as many bytes as the count says. -/
def Piece.returned (p : Piece α) : List α := p.copied.take p.ret.toNat

def reads (read : ι → σ → Piece α × σ) : List ι → σ → List (Piece α) × σ
  | [], s => ([], s)
  | c :: cs, s =>
    let r := read c s
    let rest := reads read cs r.2
    (r.1 :: rest.1, rest.2)

def returned (ps : List (Piece α)) : List α := ps.flatMap Piece.returned

/-- No call copies or returns more than it has been asked for. -/
def Within (len : ι → Nat) (cs : List ι) (ps : List (Piece α)) : Prop :=
  List.Forall₂ (fun c (p : Piece α) => p.copied.length ≤ len c ∧ p.ret ≤ (len c : Int)) cs ps

/-- The answer to a call for `len` bytes at the offset `pos`, and the offset behind it. -/
inductive Serves (text : List α) (len pos : Nat) : Piece α → Nat → Prop
  /-- not all of the bytes could be copied -/
  | failed {p : Piece α} (hlen : 0 < len) (hpos : pos < text.length) (hret : p.ret < 0)
      (hcopied : p.copied.length ≤ len) : Serves text len pos p pos
  | served {p : Piece α} (hcopied : p.copied = (text.drop pos).take len)
      (hret : p.ret = p.copied.length) : Serves text len pos p (pos + p.copied.length)

variable {read : ι → σ → Piece α × σ} {text : List α} {len pos pos' : Nat} {p : Piece α}
  {c : ι} {cs : List ι} {s : σ}

theorem reads_cons : reads read (c :: cs) s =
    ((read c s).1 :: (reads read cs (read c s).2).1, (reads read cs (read c s).2).2) := rfl

theorem returned_cons (p : Piece α) (ps : List (Piece α)) :
    returned (p :: ps) = p.returned ++ returned ps :=
  List.flatMap_cons

theorem copyToUser_ok {room : Nat} {data : List α} (h : data.length ≤ room) :
    copyToUser room data = (data, 0) := by
  rw [copyToUser, List.take_of_length_le h, Nat.sub_eq_zero_of_le h]

theorem copyToUser_fault {room : Nat} {data : List α} (h : room < data.length) :
    (copyToUser room data).2 ≠ 0 :=
  Nat.sub_ne_zero_of_lt h

/-! ### One call -/

theorem Serves.within (h : Serves text len pos p pos') :
    p.copied.length ≤ len ∧ p.ret ≤ len := by
  cases h with
  | failed hlen hpos hret hcopied => exact ⟨hcopied, by omega⟩
  | served hcopied hret =>
    have hle : p.copied.length ≤ len := by
      rw [hcopied, List.length_take]
      omega
    exact ⟨hle, by omega⟩

theorem Serves.offset (h : Serves text len pos p pos') (hpos : pos ≤ text.length) :
    pos ≤ pos' ∧ pos' ≤ text.length := by
  cases h with
  | failed => exact ⟨Nat.le_refl _, hpos⟩
  | served hcopied hret =>
    have hle : p.copied.length ≤ text.length - pos := by
      rw [hcopied, List.length_take, List.length_drop]
      omega
    omega

/-- A call that fails leaves the offset where it is. -/
theorem Serves.offset_of_neg (h : Serves text len pos p pos') (hret : p.ret < 0) : pos' = pos := by
  cases h with
  | failed => rfl
  | served hcopied hlen => omega

/-- What the program has so far. -/
theorem Serves.take_append (h : Serves text len pos p pos') :
    text.take pos ++ p.returned = text.take pos' := by
  cases h with
  | failed hlen hpos hret hcopied =>
    rw [Piece.returned, Int.toNat_of_nonpos (by omega), List.take_zero, List.append_nil]
  | served hcopied hret =>
    rw [Piece.returned, hret, Int.toNat_natCast, List.take_length, List.take_add]
    congr 1
    rw [hcopied, List.length_take, List.take_eq_take_iff]
    omega

/-- **The end of the text.** -/
theorem Serves.ret_eq_zero (h : Serves text len pos p pos') (hpos : pos ≤ text.length) :
    p.ret = 0 ↔ len = 0 ∨ pos = text.length := by
  cases h with
  | failed hlen hlt hret hcopied => omega
  | served hcopied hret =>
    have hlength : p.copied.length = min len (text.length - pos) := by
      rw [hcopied, List.length_take, List.length_drop]
    omega

theorem Serves.progress (h : Serves text len pos p pos') (hpos : pos ≤ text.length)
    (hlen : 0 < len) (hret : 0 ≤ p.ret) : pos < pos' ∨ pos' = text.length := by
  cases h with
  | failed _ _ hneg _ => omega
  | served hcopied _ =>
    have hlength : p.copied.length = min len (text.length - pos) := by
      rw [hcopied, List.length_take, List.length_drop]
    omega

/-! ### Any calls -/

variable {I : σ → Prop} {ok : ι → Prop} {lenOf : ι → Nat} {posOf : σ → Nat}

/-- **What the calls give.** -/
theorem reads_serves
    (hstep : ∀ c s, ok c → I s → I (read c s).2 ∧
      Serves text (lenOf c) (posOf s) (read c s).1 (posOf (read c s).2))
    (hcs : ∀ c ∈ cs, ok c) (hs : I s) (hpos : posOf s ≤ text.length) :
    let r := reads read cs s
    I r.2 ∧ posOf r.2 ≤ text.length ∧ Within lenOf cs r.1 ∧
      text.take (posOf s) ++ returned r.1 = text.take (posOf r.2) := by
  induction cs generalizing s with
  | nil => exact ⟨hs, hpos, .nil, List.append_nil _⟩
  | cons c cs ih =>
    obtain ⟨hs', hserves⟩ := hstep c s (hcs c List.mem_cons_self) hs
    obtain ⟨hI, hle, hwithin, htake⟩ := ih (fun d hd => hcs d (List.mem_cons_of_mem c hd)) hs'
      (hserves.offset hpos).2
    refine ⟨hI, hle, .cons hserves.within hwithin, ?_⟩
    rw [reads_cons, returned_cons, ← List.append_assoc, hserves.take_append]
    exact htake

/-- Calls that do not fail come to the end. -/
theorem reads_progress
    (hstep : ∀ c s, ok c → I s → I (read c s).2 ∧
      Serves text (lenOf c) (posOf s) (read c s).1 (posOf (read c s).2))
    (hcs : ∀ c ∈ cs, ok c ∧ 0 < lenOf c) (hs : I s) (hpos : posOf s ≤ text.length)
    (hret : ∀ p ∈ (reads read cs s).1, 0 ≤ p.ret) :
    min text.length (posOf s + cs.length) ≤ posOf (reads read cs s).2 := by
  induction cs generalizing s with
  | nil => exact Nat.min_le_right _ _
  | cons c cs ih =>
    obtain ⟨hok, hlen⟩ := hcs c List.mem_cons_self
    obtain ⟨hs', hserves⟩ := hstep c s hok hs
    have hfirst := hserves.progress hpos hlen (hret _ List.mem_cons_self)
    have hrest := ih (fun d hd => hcs d (List.mem_cons_of_mem c hd)) hs' (hserves.offset hpos).2
      (fun p hp => hret p (List.mem_cons_of_mem _ hp))
    rw [reads_cons, List.length_cons]
    simp only
    omega

end Piecewise
