import Mathlib.Data.List.Infix
import Mathlib.Data.List.OfFn
import Mathlib.Data.List.TakeWhile
import Mathlib.Data.Fin.Basic

/-!
# C strings and byte arrays

A C string is read out of a byte array up to its first NUL (`cstr`).  An array of
`n` bytes is a function on `Fin n`, so no index outside it can be written down.
`strncpy` fills a whole array from a string, `decimal` is what `%d` prints, and the other
library functions read the strings only.
-/

namespace CString

/-- The bytes of a string literal. -/
def text (s : String) : List UInt8 := s.toList.map (fun c => UInt8.ofNat c.toNat)

/-- The text `%d` prints. -/
def decimal (n : Int) : List UInt8 := text (toString n)

/-- What a reader of C strings sees of the bytes `b`: those before the first NUL. -/
def cstr (b : List UInt8) : List UInt8 := b.takeWhile (fun x => x != 0)

/-- What stands behind a NUL is not seen. -/
theorem cstr_append_zero (b r : List UInt8) : cstr (b ++ 0 :: r) = cstr b := by
  induction b with
  | nil => simp [cstr]
  | cons x b ih =>
    rw [cstr, List.cons_append, List.takeWhile_cons, cstr, List.takeWhile_cons]
    split
    · rw [← cstr, ih, cstr]
    · rfl

theorem cstr_of_zero_notMem {b : List UInt8} (h : 0 ∉ b) : cstr b = b := by
  rw [cstr, List.takeWhile_eq_self_iff]
  intro x hx
  have : x ≠ 0 := fun e => h (e ▸ hx)
  simpa using this

theorem zero_notMem_cstr (b : List UInt8) : 0 ∉ cstr b := by
  intro h
  simpa using List.mem_takeWhile_imp h

theorem cstr_cons_zero (s : List UInt8) : cstr (0 :: s) = [] := rfl

theorem cstr_cons {x : UInt8} (hx : x ≠ 0) (s : List UInt8) : cstr (x :: s) = x :: cstr s :=
  List.takeWhile_cons_of_pos (by simpa using hx)

theorem cstr_append {a b : List UInt8} (ha : 0 ∉ a) : cstr (a ++ b) = a ++ cstr b := by
  unfold cstr
  rw [List.takeWhile_append_of_pos]
  intro x hx
  have hne : x ≠ 0 := fun e => ha (e ▸ hx)
  simpa using hne

/-- A C string and what stands behind it in the array. -/
theorem cstr_split (s : List UInt8) : 0 ∉ s ∨ ∃ z, s = cstr s ++ 0 :: z := by
  induction s with
  | nil => exact Or.inl List.not_mem_nil
  | cons x s ih =>
    by_cases hx : x = 0
    · subst hx
      exact Or.inr ⟨s, rfl⟩
    · rcases ih with h0 | ⟨z, hz⟩
      · refine Or.inl ?_
        rw [List.mem_cons, not_or]
        exact ⟨Ne.symm hx, h0⟩
      · refine Or.inr ⟨z, ?_⟩
        rw [cstr_cons hx, List.cons_append, ← hz]

/-- A string that ends in its array. -/
theorem cstr_length_lt {s : List UInt8} (h0 : 0 ∈ s) : (cstr s).length < s.length := by
  rcases cstr_split s with hs | ⟨z, hz⟩
  · exact absurd h0 hs
  · have hsplit := congrArg List.length hz
    rw [List.length_append, List.length_cons] at hsplit
    omega

/-- A text at the front of the string is at the front of the array. -/
theorem cstr_eq_append {s a b : List UInt8} (h : cstr s = a ++ b) :
    ∃ b', s = a ++ b' ∧ cstr b' = b := by
  have h0 : 0 ∉ a ++ b := h ▸ zero_notMem_cstr s
  rw [List.mem_append, not_or] at h0
  rcases cstr_split s with hs | ⟨z, hs⟩
  · rw [cstr_of_zero_notMem hs] at h
    exact ⟨b, h, cstr_of_zero_notMem h0.2⟩
  · rw [h, List.append_assoc] at hs
    refine ⟨b ++ 0 :: z, hs, ?_⟩
    rw [cstr_append_zero, cstr_of_zero_notMem h0.2]

/-- `strcmp(a, b) == 0` -/
def strcmp (a b : List UInt8) : Bool := cstr a == cstr b

/-- `strncmp(a, b, n) == 0` -/
def strncmp (a b : List UInt8) (n : Nat) : Bool := (cstr a).take n == (cstr b).take n

def strcspn (s reject : List UInt8) : Nat :=
  ((cstr s).takeWhile (fun x => !reject.contains x)).length

/-- `strncmp(s, word, strlen(word)) == 0` says what `s` begins with. -/
theorem strncmp_iff {s word : List UInt8} (h0 : 0 ∉ word) :
    strncmp s word word.length = true ↔ ∃ args, s = word ++ args := by
  unfold strncmp
  rw [cstr_of_zero_notMem h0, List.take_length, beq_iff_eq]
  constructor
  · intro h
    have hsplit := List.take_append_drop word.length (cstr s)
    rw [h] at hsplit
    obtain ⟨args, hs, -⟩ := cstr_eq_append hsplit.symm
    exact ⟨args, hs⟩
  · rintro ⟨args, rfl⟩
    rw [cstr_append h0, List.take_left]

/-- `strcspn` for one byte stops at it, or at the NUL. -/
theorem strcspn_append {s r : List UInt8} {x y : UInt8} (h0 : 0 ∉ s) (hx : x ∉ s)
    (hy : y = x ∨ y = 0) : strcspn (s ++ y :: r) [x] = s.length := by
  have hs : ∀ z ∈ s, (!List.contains [x] z) = true := by
    intro z hz
    have hne : z ≠ x := fun e => hx (e ▸ hz)
    simpa using hne
  rw [strcspn, cstr_append h0, List.takeWhile_append_of_pos hs]
  by_cases hy0 : y = 0
  · rw [hy0, cstr_cons_zero, List.takeWhile_nil, List.append_nil]
  · obtain rfl := hy.resolve_right hy0
    rw [cstr_cons hy0, List.takeWhile_cons_of_neg (by simp), List.append_nil]

/-- `strstr(s, word)` is not NULL. -/
def strstr (s word : List UInt8) : Bool := decide (word <:+: cstr s)

/-! ### Arrays -/

/-- What is copied when at most `n` bytes are. -/
theorem take_min_length (s : List UInt8) (n : Nat) : s.take (min s.length n) = s.take n := by
  rw [List.take_eq_take_iff]
  omega

/-- `strncpy(dest, src, n)` on an array of `n` bytes: the string, cut at `n` bytes
or padded with NULs. -/
def strncpy (n : Nat) (src : List UInt8) : Fin n → UInt8 := fun i => (cstr src).getD i 0

/-- An array that spells out `s` and a NUL behind it is read as `s`. -/
theorem cstr_ofFn {n : Nat} {b : Fin n → UInt8} {s : List UInt8} (h0 : 0 ∉ s)
    (hlen : s.length < n) (hs : ∀ i (h : i < s.length), b ⟨i, h.trans hlen⟩ = s[i])
    (hz : b ⟨s.length, hlen⟩ = 0) : cstr (List.ofFn b) = s := by
  have htake : (List.ofFn b).take s.length = s := by
    apply List.ext_getElem
    · rw [List.length_take, List.length_ofFn]
      omega
    · intro i h1 h2
      rw [List.getElem_take, List.getElem_ofFn]
      exact hs i h2
  have hdrop : (List.ofFn b).drop s.length = 0 :: (List.ofFn b).drop (s.length + 1) := by
    rw [List.drop_eq_getElem_cons (by rwa [List.length_ofFn]), List.getElem_ofFn]
    rw [hz]
  rw [← List.take_append_drop s.length (List.ofFn b), htake, hdrop, cstr_append_zero,
    cstr_of_zero_notMem h0]

/-- **A copied string, closed by a NUL in the last byte, is the source cut to the
rest of the array.** -/
theorem cstr_strncpy (n : Nat) (src : List UInt8) :
    cstr (List.ofFn (Function.update (strncpy (n + 1) src) (Fin.last n) 0)) =
      (cstr src).take n := by
  have h0 : 0 ∉ (cstr src).take n := fun h => zero_notMem_cstr src (List.mem_of_mem_take h)
  have hlen : ((cstr src).take n).length = min n (cstr src).length := List.length_take
  refine cstr_ofFn h0 (by omega) (fun i hi => ?_) ?_
  · have hne : (⟨i, by omega⟩ : Fin (n + 1)) ≠ Fin.last n := Fin.ne_of_lt (by
      show i < n
      omega)
    have hi' : i < (cstr src).length := by omega
    rw [Function.update_of_ne hne, List.getElem_take, strncpy]
    exact (List.getElem_eq_getD 0).symm
  · by_cases hn : n ≤ (cstr src).length
    · rw [show (⟨((cstr src).take n).length, _⟩ : Fin (n + 1)) = Fin.last n from
        Fin.ext (by show ((cstr src).take n).length = n; omega), Function.update_self]
    · have hne : (⟨((cstr src).take n).length, by omega⟩ : Fin (n + 1)) ≠ Fin.last n :=
        Fin.ne_of_lt (by
          show ((cstr src).take n).length < n
          omega)
      rw [Function.update_of_ne hne, strncpy, List.getD_eq_getElem?_getD,
        List.getElem?_eq_none (by show (cstr src).length ≤ ((cstr src).take n).length; omega)]
      rfl

end CString
