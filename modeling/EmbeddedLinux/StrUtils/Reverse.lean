import EmbeddedLinux.Lib.ArrayProgram
import EmbeddedLinux.Lib.Stdio

/-!
# Reversing a string in place

`str_reverse` lets the bytes at `i` and at `len - 1 - i` change places, for `i` from 0 to the
middle.  After `i` rounds the first `i` bytes and the last `i` bytes of the string are those of the
reversed string, and what is between them is as it was (`Reversed`).

The array is the string, its NUL and anything behind it, which stays (`reverses_in_place`).
-/

namespace EmbeddedLinux.StrUtils

open CString Stdio ArrayProgram

/-- `strlen(str)`, of the type `size_t`: the string ends inside of its array.  It reads the string
and its NUL; only the indices that the program itself uses are recorded. -/
def strlen : Prog UInt8 Nat := fun m =>
  if 0 ∈ m.data then some ((cstr m.data).length, m) else none

theorem runs_strlen {n : Nat} {s r : List UInt8} (h0 : 0 ∉ s) :
    Runs n strlen (s ++ 0 :: r) s.length (s ++ 0 :: r) := by
  intro used
  refine ⟨[], ?_, by simp⟩
  unfold strlen
  rw [if_pos (by simp), cstr_append_zero, cstr_of_zero_notMem h0]
  rfl

/-- `if (!str) return;`, where `none` is a null pointer, and then the program on the array. -/
def onString (p : Prog UInt8 Unit) : Option (List UInt8) → Option (Option (Mem UInt8))
  | none => some none
  | some str => (p { data := str, used := [] }).map (fun r => some r.2)

theorem onString_of_runs {n : Nat} {p : Prog UInt8 Unit} {b b' : List UInt8}
    (h : Runs n p b () b') :
    ∃ m, onString p (some b) = some (some m) ∧ m.data = b' ∧ ∀ i ∈ m.used, 0 ≤ i ∧ i < n := by
  obtain ⟨new, hrun, hnew⟩ := h []
  refine ⟨{ data := b', used := new ++ [] }, ?_, rfl, by simpa using hnew⟩
  rw [onString, hrun]
  rfl

/-! ### The function -/

/-- The body of the loop. -/
def swapEnds (len i : Int) : Prog UInt8 Int := do
  let tmp ← load i
  let j ← int (len - 1 - i)
  let c ← load j
  store i c
  store j tmp
  int (i + 1)

/-- `str_reverse` -/
def strReverse : Option (List UInt8) → Option (Option (Mem UInt8)) := onString do
  let n ← strlen
  let len := wrapInt n
  let _ ← whileDo (fun i => return decide (i < len.tdiv 2)) (swapEnds len) 0

/-! ### The loop -/

variable {n : Nat} {s r a c d : List UInt8} {x y : UInt8} {i : Int}

/-- Two bytes change places. -/
theorem runs_swapEnds {len : Int} (hi : i = a.length) (hj : len - 1 - i = (a ++ x :: c).length)
    (hlen : len ≤ 2147483647) (hn : (a ++ x :: c).length < n) :
    Runs n (swapEnds len i) (a ++ x :: (c ++ y :: d)) (i + 1) (a ++ y :: (c ++ x :: d)) := by
  have hlt : a.length < (a ++ x :: c).length := by
    rw [List.length_append, List.length_cons]
    omega
  -- the array, cut at its second byte
  have hcut : ∀ z w : UInt8, a ++ z :: (c ++ w :: d) = (a ++ z :: c) ++ w :: d := by simp
  have hfirst : (a ++ x :: (c ++ y :: d))[a.length]? = some x := by simp
  have hsecond : (a ++ x :: (c ++ y :: d))[(a ++ x :: c).length]? = some y := by
    rw [hcut, List.getElem?_append_right (Nat.le_refl _), Nat.sub_self]
    rfl
  have hback := Runs.store (r := d) (x := y) (a := a ++ y :: c) x (n := n) (by simpa using hn)
  rw [← hcut, ← hcut] at hback
  subst hi
  unfold swapEnds
  refine (Runs.load hfirst (hlt.trans hn)).bind ((Runs.int n _ (by omega) (by omega)).bind ?_)
  rw [hj]
  refine (Runs.load hsecond hn).bind ((Runs.store y (hlt.trans hn)).bind ?_)
  refine (?_ : Runs n _ _ () _).bind (Runs.int n _ (by omega) (by omega))
  simpa using hback

/-- The two ends of `s` are reversed, `i` bytes of each. -/
def Reversed (s r : List UInt8) (i : Int) (b : List UInt8) : Prop :=
  ∃ front mid back, s = front ++ (mid ++ back) ∧
    b = back.reverse ++ (mid ++ (front.reverse ++ 0 :: r)) ∧
      i = front.length ∧ front.length = back.length

theorem Reversed.start (s r : List UInt8) : Reversed s r 0 (s ++ 0 :: r) :=
  ⟨[], s, [], by simp, by simp, rfl, rfl⟩

/-- A round before the middle. -/
theorem Reversed.round {i : Int} {b : List UInt8} (h : Reversed s r i b)
    (hi : i < (s.length : Int).tdiv 2) (hlen : s.length ≤ 2147483647) :
    ∃ b', Runs s.length (swapEnds s.length i) b (i + 1) b' ∧ Reversed s r (i + 1) b' := by
  obtain ⟨front, mid, back, rfl, rfl, rfl, hlr⟩ := h
  rw [Int.tdiv_eq_ediv_of_nonneg (by omega)] at hi
  simp only [List.length_append] at hi hlen ⊢
  -- there are two bytes in the middle at least
  obtain ⟨x, mid, rfl⟩ := List.exists_cons_of_length_pos (l := mid) (by omega)
  obtain ⟨c, y, rfl⟩ : ∃ c y, mid = c ++ [y] := by
    refine ⟨_, _, (List.dropLast_append_getLast (l := mid) ?_).symm⟩
    rintro rfl
    simp only [List.length_cons, List.length_nil] at hi
    omega
  simp only [List.length_append, List.length_cons, List.length_nil] at hi hlen ⊢
  refine ⟨back.reverse ++ y :: (c ++ x :: (front.reverse ++ 0 :: r)), ?_,
    front ++ [x], c, y :: back, by simp, by simp, by simp, by simp [hlr]⟩
  have harray : back.reverse ++ (x :: (c ++ [y]) ++ (front.reverse ++ 0 :: r)) =
      back.reverse ++ x :: (c ++ y :: (front.reverse ++ 0 :: r)) := by simp
  rw [harray]
  exact runs_swapEnds (by simp [hlr]) (by simp; omega) (by omega) (by simp; omega)

/-- At the middle all of the string is reversed. -/
theorem Reversed.done {i : Int} {b : List UInt8} (h : Reversed s r i b)
    (hi : (s.length : Int).tdiv 2 ≤ i) : b = s.reverse ++ 0 :: r := by
  obtain ⟨front, mid, back, rfl, rfl, rfl, hlr⟩ := h
  rw [Int.tdiv_eq_ediv_of_nonneg (by omega)] at hi
  simp only [List.length_append] at hi
  have hmid : mid.reverse = mid := by
    match mid, hi with
    | [], _ => rfl
    | [_], _ => rfl
    | _ :: _ :: _, hi =>
      simp only [List.length_cons] at hi
      omega
  simp [hmid]

/-- The loop, with what is left up to the middle as its variant. -/
theorem reverse_round (r : List UInt8) (hlen : s.length ≤ 2147483647) :
    Round s.length (fun i => return decide (i < (s.length : Int).tdiv 2)) (swapEnds s.length)
      (fun i b => Reversed s r i b ∧ i ≤ (s.length : Int).tdiv 2)
      (fun _ b => b = s.reverse ++ 0 :: r) (fun i => ((s.length : Int).tdiv 2 - i).toNat) := by
  rintro i b ⟨h, hle⟩
  refine ⟨_, .pure _ _ _, fun hc => ?_, fun hc => ?_⟩
  · have hi := of_decide_eq_false hc
    exact h.done (by omega)
  · have hi := of_decide_eq_true hc
    obtain ⟨b', hrun, h'⟩ := h.round hi hlen
    refine ⟨i + 1, b', hrun, ⟨h', hi⟩, ?_⟩
    show ((s.length : Int).tdiv 2 - (i + 1)).toNat < ((s.length : Int).tdiv 2 - i).toNat
    omega

/-- **The array after `str_reverse`.** -/
theorem runs_reverse (h0 : 0 ∉ s) (hlen : s.length ≤ 2147483647) :
    ∃ m, strReverse (some (s ++ 0 :: r)) = some (some m) ∧ m.data = s.reverse ++ 0 :: r ∧
      ∀ i ∈ m.used, 0 ≤ i ∧ i < s.length := by
  apply onString_of_runs
  refine (runs_strlen h0).bind ?_
  have hwrap : wrapInt (s.length : Int) = s.length := by
    rw [wrapInt, Int.bmod_eq_of_le] <;> omega
  have hhalf : (s.length : Int).tdiv 2 = ((s.length / 2 : Nat) : Int) := by
    rw [Int.tdiv_eq_ediv_of_nonneg (by omega), Int.natCast_ediv]
    rfl
  simp only [hwrap]
  obtain ⟨i, b, hrun, rfl⟩ := (reverse_round r hlen).whileDo ⟨.start s r, by omega⟩
    (by rw [List.length_append]; omega)
  exact hrun.bind (.pure _ _ _)

/-- **The string is reversed in place.** -/
theorem reverses_in_place (s r : List UInt8) (h0 : 0 ∉ s) (hlen : s.length ≤ 2147483647) :
    ∃ m, strReverse (some (s ++ 0 :: r)) = some (some m) ∧
      (∀ i (hi : i < s.length), m.data[i]? = some s[s.length - 1 - i]) ∧
      m.data.drop s.length = 0 :: r ∧
      (∀ i ∈ m.used, 0 ≤ i ∧ i < s.length) ∧
      ∃ m', strReverse (some m.data) = some (some m') ∧ m'.data = s ++ 0 :: r := by
  obtain ⟨m, hm, hdata, hused⟩ := runs_reverse (r := r) h0 hlen
  refine ⟨m, hm, fun i hi => ?_, ?_, hused, ?_⟩
  · rw [hdata, List.getElem?_append_left (by rwa [List.length_reverse]), List.getElem?_reverse hi,
      List.getElem?_eq_getElem]
  · rw [hdata, ← List.length_reverse, List.drop_left]
  · obtain ⟨m', hm', hdata', -⟩ := runs_reverse (s := s.reverse) (r := r) (by simpa using h0)
      (by rwa [List.length_reverse])
    rw [hdata]
    exact ⟨m', hm', by rw [hdata', List.reverse_reverse]⟩

/-- A string with a byte behind its NUL. -/
theorem reverses_in_place_abc :
    ∃ m, strReverse (some (text "abc" ++ 0 :: [7])) = some (some m) ∧ m.data[0]? = some 99 ∧
      m.data.drop 3 = [0, 7] := by
  obtain ⟨m, hm, hget, hdrop, -⟩ := reverses_in_place (text "abc") [7] (by decide) (by decide)
  exact ⟨m, hm, hget 0 (by decide), hdrop⟩

end EmbeddedLinux.StrUtils
