import EmbeddedLinux.Lib.KString
import EmbeddedLinux.Lib.Numeral
import EmbeddedLinux.StrUtils.Reverse

/-!
# Trimming a string in place

`str_trim` looks for the first byte that is no white space, then from the end for the last one,
and moves what is between them to the front.  The first search ends at the NUL if there is
nothing else, and then the second does not start: its index is already below.  The move goes from
low indices to high ones, so it overwrites only bytes that it has read (`runs_shift`).

What is left is the string without white space at its ends (`Trimmed`).
-/

namespace EmbeddedLinux.StrUtils

open CString Stdio ArrayProgram
open KString (strip)

/-! ### The function -/

/-- `isspace((unsigned char)str[i])` -/
def isSpaceAt (i : Int) : Prog UInt8 Bool := do
  let c ← load i
  return isSpace c

/-- `while (isspace((unsigned char)str[start])) start++;` -/
def skipLeading : Prog UInt8 Int := whileDo isSpaceAt (fun start => int (start + 1)) 0

/-- `end > start && isspace((unsigned char)str[end])` -/
def trailingAt (start last : Int) : Prog UInt8 Bool :=
  if start < last then isSpaceAt last else return false

/-- `while (end > start && isspace((unsigned char)str[end])) end--;` -/
def skipTrailing (start : Int) : Int → Prog UInt8 Int :=
  whileDo (trailingAt start) (fun last => int (last - 1))

/-- The body of the last loop, over `i` and `j`. -/
def copyByte (ij : Int × Int) : Prog UInt8 (Int × Int) := do
  let c ← load ij.1
  store ij.2 c
  let i ← int (ij.1 + 1)
  let j ← int (ij.2 + 1)
  return (i, j)

/-- `for (i = start; i <= end; i++, j++) str[j] = str[i];` -/
def shift (start last : Int) : Prog UInt8 (Int × Int) :=
  whileDo (fun ij => return decide (ij.1 ≤ last)) copyByte (start, 0)

/-- What `str_trim` does with a string; `last` is its local `end`. -/
def trim : Prog UInt8 Unit := do
  let start ← skipLeading
  let n ← strlen
  -- the difference is a `size_t`, and then cut to an `int`
  let last ← skipTrailing start (wrapInt (((n : Int) - 1) % 18446744073709551616))
  let ij ← shift start last
  store ij.2 0

/-- `str_trim` -/
def strTrim : Option (List UInt8) → Option (Option (Mem UInt8)) := onString trim

/-! ### What is left -/

/-- `w` is `s` without the white space at both ends. -/
def Trimmed (s w : List UInt8) : Prop :=
  ∃ a b, s = a ++ (w ++ b) ∧ Blanks a ∧ Blanks b ∧
    (∀ x ∈ w.head?, isSpace x = false) ∧ ∀ x ∈ w.getLast?, isSpace x = false

/-! ### The loops -/

variable {n : Nat} {s r a b t u v w : List UInt8} {x : UInt8}

/-- What a search reads. -/
theorem runs_isSpaceAt (hx : (t ++ 0 :: r).head? = some x) (hn : a.length < n) :
    Runs n (isSpaceAt a.length) (a ++ (t ++ 0 :: r)) (isSpace x) (a ++ (t ++ 0 :: r)) := by
  refine (Runs.load ?_ hn).bind (.pure _ _ _)
  rw [List.getElem?_append_right (Nat.le_refl _), Nat.sub_self, ← List.head?_eq_getElem?, hx]

/-- The bytes before `start` are white space. -/
def Leading (s : List UInt8) (start : Int) : Prop :=
  ∃ a t, s = a ++ t ∧ Blanks a ∧ start = a.length

/-- They are all of the white space at the front. -/
def LeadingEnd (s : List UInt8) (start : Int) : Prop :=
  ∃ a t, s = a ++ t ∧ Blanks a ∧ start = a.length ∧ ∀ x ∈ t.head?, isSpace x = false

theorem leading_round (r : List UInt8) (hlen : s.length < 2147483647) :
    Round (s.length + 1) isSpaceAt (fun start => int (start + 1))
      (fun start b => b = s ++ 0 :: r ∧ Leading s start)
      (fun start b => b = s ++ 0 :: r ∧ LeadingEnd s start)
      (fun start => (s.length - start).toNat) := by
  rintro start b ⟨rfl, a, t, rfl, ha, rfl⟩
  rw [List.length_append] at hlen ⊢
  rw [List.append_assoc]
  cases t with
  | nil =>
    -- the NUL is no white space
    refine ⟨_, @runs_isSpaceAt _ r a [] 0 rfl (by omega), fun _ => ?_, nofun⟩
    exact ⟨rfl, a, [], rfl, ha, rfl, by simp⟩
  | cons x t =>
    rw [List.length_cons] at hlen
    refine ⟨_, @runs_isSpaceAt _ r a (x :: t) x rfl (by omega), fun hx => ?_, fun hx => ?_⟩
    · exact ⟨rfl, a, x :: t, rfl, ha, rfl, by simpa using hx⟩
    · have ha' : Blanks (a ++ [x]) :=
        List.forall_mem_append.2 ⟨ha, List.forall_mem_singleton.2 hx⟩
      refine ⟨a.length + 1, _, .int _ _ (by omega) (by omega), ⟨rfl, a ++ [x], t, ?_, ha', ?_⟩, ?_⟩
      · simp
      · simp
      · simp only [List.length_cons]
        omega

/-- The search from the front ends at the first byte that is no white space, or at the NUL. -/
theorem runs_skipLeading (r : List UInt8) (hlen : s.length < 2147483647) :
    ∃ a t, s = a ++ t ∧ Blanks a ∧ (∀ x ∈ t.head?, isSpace x = false) ∧
      Runs (s.length + 1) skipLeading (s ++ 0 :: r) a.length (s ++ 0 :: r) := by
  obtain ⟨start, b, hrun, rfl, a, t, hs, ha, rfl, ht⟩ := (leading_round r hlen).whileDo
    ⟨rfl, [], s, rfl, by simp [Blanks], rfl⟩ (by rw [List.length_append]; omega)
  exact ⟨a, t, hs, ha, ht, hrun⟩

/-- Behind `last` there is only white space; the string is `a` and then `t`. -/
def Trailing (a t : List UInt8) (last : Int) : Prop :=
  ∃ w b, t = w ++ b ∧ Blanks b ∧ last = ((a ++ w).length : Int) - 1

/-- It is all of the white space at the end. -/
def TrailingEnd (a t : List UInt8) (last : Int) : Prop :=
  ∃ w b, t = w ++ b ∧ Blanks b ∧ last = ((a ++ w).length : Int) - 1 ∧
    ∀ x ∈ w.getLast?, isSpace x = false

/-- What the second search reads: nothing, when it is at the first byte behind `a`. -/
theorem runs_trailingAt (hn : (a ++ w).length < n) :
    Runs n (trailingAt a.length (a ++ w).length) ((a ++ w) ++ ((x :: b) ++ 0 :: r))
      (decide (w ≠ []) && isSpace x) ((a ++ w) ++ ((x :: b) ++ 0 :: r)) := by
  unfold trailingAt
  cases w with
  | nil =>
    rw [if_neg (by rw [List.append_nil]; omega)]
    exact .pure _ _ _
  | cons y w =>
    rw [if_pos (by simp only [List.length_append, List.length_cons]; omega)]
    exact runs_isSpaceAt rfl hn

theorem trailing_round (r : List UInt8) (ht : ∀ x ∈ t.head?, isSpace x = false)
    (hlen : (a ++ t).length < 2147483647) :
    Round ((a ++ t).length + 1) (trailingAt a.length) (fun last => int (last - 1))
      (fun last d => d = a ++ t ++ 0 :: r ∧ Trailing a t last)
      (fun last d => d = a ++ t ++ 0 :: r ∧ TrailingEnd a t last)
      (fun last => (last - a.length).toNat) := by
  rintro last d ⟨rfl, w, b, rfl, hb, rfl⟩
  rcases w.eq_nil_or_concat' with rfl | ⟨w, x, rfl⟩
  · refine ⟨false, ?_, fun _ => ⟨rfl, [], b, rfl, hb, rfl, by simp⟩, nofun⟩
    rw [List.append_nil, trailingAt, if_neg (by omega)]
    exact .pure _ _ _
  · have hlast : (((a ++ (w ++ [x])).length : Nat) : Int) - 1 = (a ++ w).length := by
      simp only [List.length_append, List.length_singleton]
      omega
    have harray : a ++ (w ++ [x] ++ b) ++ 0 :: r = (a ++ w) ++ ((x :: b) ++ 0 :: r) := by simp
    rw [hlast, harray]
    refine ⟨_, runs_trailingAt (by simp only [List.length_append]; omega), fun hc => ?_,
      fun hc => ?_⟩
    · refine ⟨rfl, w ++ [x], b, rfl, hb, hlast.symm, ?_⟩
      rw [List.getLast?_concat]
      rintro y ⟨⟩
      cases w with
      | nil => exact ht x rfl
      | cons y w => simpa using hc
    · rw [Bool.and_eq_true, decide_eq_true_iff] at hc
      have hpos := List.length_pos_iff.2 hc.1
      refine ⟨_, _, .int _ _ (by omega) ?_, ⟨rfl, w, x :: b, by simp, ?_, rfl⟩, ?_⟩
      · simp only [List.length_append, List.length_cons] at hlen ⊢
        omega
      · exact List.forall_mem_cons.2 ⟨hc.2, hb⟩
      · simp only [List.length_append]
        omega

/-- The search from the end stops at the last byte that is no white space, and goes no lower than
the other search. -/
theorem runs_skipTrailing (r : List UInt8) (ht : ∀ x ∈ t.head?, isSpace x = false)
    (hlen : (a ++ t).length < 2147483647) :
    ∃ w b, t = w ++ b ∧ Blanks b ∧ (∀ x ∈ w.head?, isSpace x = false) ∧
      (∀ x ∈ w.getLast?, isSpace x = false) ∧
      Runs ((a ++ t).length + 1) (skipTrailing a.length ((a ++ t).length - 1)) (a ++ t ++ 0 :: r)
        ((a ++ w).length - 1) (a ++ t ++ 0 :: r) := by
  obtain ⟨last, d, hrun, rfl, w, b, rfl, hb, rfl, hw⟩ := (trailing_round r ht hlen).whileDo
    ⟨rfl, t, [], by simp, by simp [Blanks], rfl⟩ (by simp only [List.length_append]; omega)
  refine ⟨w, b, rfl, hb, fun x hx => ht x ?_, hw, hrun⟩
  cases w with
  | nil => cases hx
  | cons y w => exact hx

/-- A byte moves to the front: below its new place everything has been moved, and from there on the
array is as it was. -/
theorem runs_copyByte {d : List UInt8} (hd : d = (a ++ u) ++ x :: v) (hn : (a ++ u).length < n)
    (hlen : n ≤ 2147483647) :
    Runs n (copyByte ((a ++ u).length, u.length)) (u ++ d.drop u.length)
      (((a ++ u).length : Int) + 1, (u.length : Int) + 1)
      ((u ++ [x]) ++ d.drop (u.length + 1)) := by
  rw [List.length_append] at hn
  have hlt : u.length < d.length := by
    rw [hd]
    simp only [List.length_append, List.length_cons]
    omega
  have hget : (u ++ d.drop u.length)[(a ++ u).length]? = some x := by
    have hplace : u.length + ((a ++ u).length - u.length) = (a ++ u).length := by
      rw [List.length_append]
      omega
    rw [List.getElem?_append_right (by simp), List.getElem?_drop, hplace, hd,
      List.getElem?_append_right (Nat.le_refl _), Nat.sub_self]
    rfl
  have hstore := Runs.store (n := n) (a := u) (r := d.drop (u.length + 1)) (x := d[u.length]) x
    (by omega)
  rw [← List.drop_eq_getElem_cons hlt] at hstore
  refine (Runs.load hget (by simpa using hn)).bind (hstore.bind ?_)
  rw [List.append_assoc]
  refine (Runs.int n _ ?_ ?_).bind ((Runs.int n _ ?_ ?_).bind (.pure _ _ _)) <;>
    simp only [List.length_append] <;> omega

/-- Of `w`, which stands behind `a`, the first bytes have been moved to the front of the array. -/
def Shifted (a w c : List UInt8) (ij : Int × Int) (d : List UInt8) : Prop :=
  ∃ u v, w = u ++ v ∧ ij = (((a ++ u).length : Int), (u.length : Int)) ∧
    d = u ++ (a ++ (w ++ c)).drop u.length

theorem shift_round (c : List UInt8) (hn : (a ++ w).length ≤ n) (hlen : n ≤ 2147483647) :
    Round n (fun ij => return decide (ij.1 ≤ ((a ++ w).length : Int) - 1)) copyByte
      (Shifted a w c) (fun ij d => ij.2 = w.length ∧ d = w ++ (a ++ (w ++ c)).drop w.length)
      (fun ij => (w.length - ij.2).toNat) := by
  rintro ij d ⟨u, v, rfl, rfl, rfl⟩
  refine ⟨_, .pure _ _ _, fun hi => ?_, fun hi => ?_⟩
  · have hend := of_decide_eq_false hi
    cases v with
    | nil => exact ⟨by simp, by simp⟩
    | cons x v =>
      simp only [List.length_append, List.length_cons] at hend
      omega
  · have hgo := of_decide_eq_true hi
    cases v with
    | nil =>
      rw [List.append_nil] at hgo
      omega
    | cons x v =>
      have hcopy := runs_copyByte (n := n) (a := a) (u := u) (x := x) (v := v ++ c)
        (d := a ++ (u ++ x :: v ++ c)) (by simp) (by omega) hlen
      refine ⟨_, _, hcopy, ⟨u ++ [x], v, by simp, by simp; omega, by simp⟩, ?_⟩
      simp only [List.length_append, List.length_cons]
      omega

/-- What is between the two searches is moved to the front. -/
theorem runs_shift (c : List UInt8) (hn : (a ++ w).length ≤ n) (hlen : n ≤ 2147483647) :
    ∃ i, Runs n (shift a.length ((a ++ w).length - 1)) (a ++ (w ++ c)) (i, (w.length : Int))
      (w ++ (a ++ (w ++ c)).drop w.length) := by
  obtain ⟨⟨i, j⟩, d, hrun, hj, rfl⟩ := (shift_round c hn hlen).whileDo
    (s := ((a.length : Int), 0)) (b := a ++ (w ++ c)) ⟨[], w, rfl, by simp, rfl⟩
    (by simp only [List.length_append]; omega)
  cases hj
  exact ⟨i, hrun⟩

/-- The length less 1, which is -1 for the empty string. -/
theorem wrapInt_pred {k : Nat} (hk : k < 2147483647) :
    wrapInt (((k : Int) - 1) % 18446744073709551616) = (k : Int) - 1 := by
  rcases Nat.eq_zero_or_pos k with rfl | hpos
  · rfl
  · rw [Int.emod_eq_of_lt (by omega) (by omega), wrapInt, Int.bmod_eq_of_le] <;> omega

/-- **The array after `str_trim`**: the trimmed string and its NUL, and then what was there. -/
theorem runs_trim (r : List UInt8) (h0 : 0 ∉ s) (hlen : s.length < 2147483647) :
    ∃ m w, strTrim (some (s ++ 0 :: r)) = some (some m) ∧ Trimmed s w ∧
      m.data = w ++ 0 :: (s ++ 0 :: r).drop (w.length + 1) ∧
        ∀ i ∈ m.used, 0 ≤ i ∧ i ≤ s.length := by
  obtain ⟨a, t, rfl, ha, ht, hlead⟩ := runs_skipLeading r hlen
  obtain ⟨w, b, rfl, hb, hhead, hlast, htrail⟩ := runs_skipTrailing r ht hlen
  obtain ⟨i, hshift⟩ := runs_shift (n := (a ++ (w ++ b)).length + 1) (a := a) (w := w) (b ++ 0 :: r)
    (by simp only [List.length_append]; omega) (by omega)
  have harray : a ++ (w ++ (b ++ 0 :: r)) = a ++ (w ++ b) ++ 0 :: r := by simp
  rw [harray] at hshift
  have hlt : w.length < (a ++ (w ++ b) ++ 0 :: r).length := by
    simp only [List.length_append, List.length_cons]
    omega
  have hstore := Runs.store (n := (a ++ (w ++ b)).length + 1) (a := w)
    (r := (a ++ (w ++ b) ++ 0 :: r).drop (w.length + 1))
    (x := (a ++ (w ++ b) ++ 0 :: r)[w.length]) 0 (by simp only [List.length_append]; omega)
  rw [← List.drop_eq_getElem_cons hlt] at hstore
  rw [← wrapInt_pred hlen] at htrail
  have hrun : Runs ((a ++ (w ++ b)).length + 1) trim (a ++ (w ++ b) ++ 0 :: r) ()
      (w ++ 0 :: (a ++ (w ++ b) ++ 0 :: r).drop (w.length + 1)) :=
    hlead.bind ((runs_strlen h0).bind (htrail.bind (hshift.bind hstore)))
  obtain ⟨m, hm, hdata, hused⟩ := onString_of_runs hrun
  refine ⟨m, w, hm, ⟨a, b, rfl, ha, hb, hhead, hlast⟩, hdata, fun i hi => ?_⟩
  have := hused i hi
  omega

/-! ### Trimming twice -/

/-- What is cut off at the end. -/
theorem rdropWhile_blanks (hb : Blanks b) (hw : ∀ x ∈ w.getLast?, isSpace x = false) :
    (w ++ b).rdropWhile isSpace = w := by
  rw [List.rdropWhile, List.reverse_append, dropWhile_blanks, List.reverse_reverse]
  · exact fun x hx => hb x (List.mem_reverse.1 hx)
  · rwa [List.head?_reverse]

/-- A string is trimmed in one way only. -/
theorem Trimmed.eq_strip (h : Trimmed s w) : w = strip isSpace s := by
  obtain ⟨a, b, rfl, ha, hb, hhead, hlast⟩ := h
  rw [strip]
  cases w with
  | nil =>
    have hall : Blanks (a ++ b) := by
      intro x hx
      rcases List.mem_append.1 hx with hx | hx
      · exact ha x hx
      · exact hb x hx
    have hdrop := dropWhile_blanks (s := []) hall (by simp)
    rw [List.append_nil] at hdrop
    rw [List.nil_append, hdrop, List.rdropWhile_nil]
  | cons x w =>
    rw [dropWhile_blanks ha (by simpa using hhead), rdropWhile_blanks hb hlast]

/-- A trimmed string stays as it is. -/
theorem Trimmed.again {w' : List UInt8} (h : Trimmed s w) (h' : Trimmed w w') : w' = w := by
  obtain ⟨-, -, -, -, -, hends⟩ := h
  have hself : Trimmed w w := ⟨[], [], by simp, by simp [Blanks], by simp [Blanks], hends⟩
  rw [h'.eq_strip, ← hself.eq_strip]

theorem Trimmed.sublist (h : Trimmed s w) : w.Sublist s := by
  obtain ⟨a, b, rfl, -⟩ := h
  exact (List.sublist_append_left w b).trans (List.sublist_append_right a _)

/-- **The string is trimmed in place.** -/
theorem trims_in_place (s r : List UInt8) (h0 : 0 ∉ s) (hlen : s.length < 2147483647) :
    ∃ m w, strTrim (some (s ++ 0 :: r)) = some (some m) ∧ Trimmed s w ∧
      m.data = w ++ 0 :: (s ++ 0 :: r).drop (w.length + 1) ∧
      (∀ i ∈ m.used, 0 ≤ i ∧ i ≤ s.length) ∧
      ∃ m', strTrim (some m.data) = some (some m') ∧ m'.data = m.data := by
  obtain ⟨m, w, hm, hw, hdata, hused⟩ := runs_trim r h0 hlen
  obtain ⟨m', w', hm', hw', hdata', -⟩ := runs_trim ((s ++ 0 :: r).drop (w.length + 1))
    (fun h => h0 (hw.sublist.subset h)) (Nat.lt_of_le_of_lt hw.sublist.length_le hlen)
  obtain rfl := hw.again hw'
  refine ⟨m, w', hm, hw, hdata, hused, m', by rw [hdata, hm'], ?_⟩
  rw [hdata', hdata]
  simp

/-- White space at both ends and in the middle. -/
theorem trims_in_place_words : ∃ m w, strTrim (some (text "  a b " ++ 0 :: [])) = some (some m) ∧
    Trimmed (text "  a b ") w ∧ m.data.length = 7 := by
  obtain ⟨m, w, hm, hw, hdata, -⟩ := trims_in_place (text "  a b ") [] (by decide) (by decide)
  refine ⟨m, w, hm, hw, ?_⟩
  obtain rfl := hw.eq_strip
  rw [hdata]
  decide

example : (strTrim (some (text "  a b " ++ [0]))).map (Option.map (cstr ·.data)) =
    some (some (text "a b")) := by decide

end EmbeddedLinux.StrUtils
