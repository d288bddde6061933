import EmbeddedLinux.Lib.CString
import Mathlib.Data.List.Basic
import Mathlib.Data.List.DropRight

/-!
# Reading lines and scanning them

`fgets` takes bytes up to a newline or to the end of its array.  `sscanf` takes a
list of directives, and returns the values it has stored: their number is what the C function
returns, or EOF where the text ends before the first of them.  As in glibc, `%d` reads the
whole numeral, whose value is clamped to a `long` and cut to an `int`.

A number in decimal, with something behind it that is no digit, is read back by `%d`
(`scanInt_decimal`), and a line that fits into the array is read whole by `fgets`
(`fgets_line`).
-/

namespace Stdio

open CString

def newline : UInt8 := 10

/-- `isspace` in the C locale. -/
def isSpace (x : UInt8) : Bool := x == 32 || (9 ≤ x && x ≤ 13)

def isDigit (x : UInt8) : Bool := 48 ≤ x && x ≤ 57

/-! ### Lines -/

/-- At most `n` bytes of the input, up to a newline, and the rest of it. -/
def takeLine : Nat → List UInt8 → List UInt8 × List UInt8
  | 0, input => ([], input)
  | _ + 1, [] => ([], [])
  | n + 1, x :: input =>
    if x = newline then ([x], input)
    else (x :: (takeLine n input).1, (takeLine n input).2)

/-- `fgets` into an array of `n` bytes: what it stores before the NUL, and the rest of the input.
At the end of the input it returns NULL. -/
def fgets (n : Nat) (input : List UInt8) : Option (List UInt8 × List UInt8) :=
  if input = [] then none else some (takeLine (n - 1) input)

theorem takeLine_append (n : Nat) (input : List UInt8) :
    (takeLine n input).1 ++ (takeLine n input).2 = input := by
  induction n generalizing input with
  | zero => rfl
  | succ n ih =>
    cases input with
    | nil => rfl
    | cons x input =>
      rw [takeLine]
      split
      · rfl
      · exact congrArg (x :: ·) (ih input)

/-- A line that fits is taken whole. -/
theorem takeLine_line {n : Nat} {body : List UInt8} (h : newline ∉ body) (hlen : body.length < n)
    (rest : List UInt8) : takeLine n (body ++ newline :: rest) = (body ++ [newline], rest) := by
  induction body generalizing n with
  | nil =>
    obtain ⟨m, rfl⟩ := Nat.exists_eq_succ_of_ne_zero (Nat.ne_of_gt hlen)
    rw [List.nil_append, takeLine, if_pos rfl]
    rfl
  | cons x body ih =>
    obtain ⟨m, rfl⟩ := Nat.exists_eq_succ_of_ne_zero (Nat.ne_of_gt (Nat.zero_lt_of_lt hlen))
    rw [List.mem_cons, not_or] at h
    rw [List.length_cons] at hlen
    rw [List.cons_append, takeLine, if_neg (Ne.symm h.1), ih h.2 (by omega)]
    rfl

/-- Of a longer line the front is taken. -/
theorem takeLine_long {n : Nat} {body : List UInt8} (h : newline ∉ body) (hlen : n ≤ body.length)
    (rest : List UInt8) : takeLine n (body ++ rest) = (body.take n, body.drop n ++ rest) := by
  induction n generalizing body with
  | zero => rfl
  | succ n ih =>
    cases body with
    | nil => cases hlen
    | cons x body =>
      rw [List.mem_cons, not_or] at h
      rw [List.cons_append, takeLine, if_neg (Ne.symm h.1), ih h.2 (Nat.le_of_succ_le_succ hlen)]
      rfl

/-- What is taken is a line, or has no newline and ends where the array or the input does. -/
theorem takeLine_cases (n : Nat) (input : List UInt8) :
    ((∃ body, newline ∉ body ∧ (takeLine n input).1 = body ++ [newline]) ∨
        newline ∉ (takeLine n input).1 ∧
          ((takeLine n input).1.length = n ∨ (takeLine n input).2 = [])) ∧
      (takeLine n input).1.length ≤ n := by
  induction n generalizing input with
  | zero => exact ⟨Or.inr ⟨List.not_mem_nil, Or.inl rfl⟩, Nat.le_refl 0⟩
  | succ n ih =>
    cases input with
    | nil => exact ⟨Or.inr ⟨List.not_mem_nil, Or.inr rfl⟩, Nat.zero_le _⟩
    | cons x input =>
      rw [takeLine]
      split
      · rename_i hx
        subst hx
        exact ⟨Or.inl ⟨[], List.not_mem_nil, rfl⟩, Nat.succ_le_succ (Nat.zero_le n)⟩
      · rename_i hx
        obtain ⟨hcases, hlen⟩ := ih input
        refine ⟨?_, Nat.succ_le_succ hlen⟩
        rcases hcases with ⟨body, hnl, hbody⟩ | ⟨hnl, hend⟩
        · refine Or.inl ⟨x :: body, ?_, congrArg (x :: ·) hbody⟩
          rw [List.mem_cons, not_or]
          exact ⟨Ne.symm hx, hnl⟩
        · refine Or.inr ⟨?_, hend.imp_left (congrArg (· + 1))⟩
          rw [List.mem_cons, not_or]
          exact ⟨Ne.symm hx, hnl⟩

/-- **A line that fits into the array is read whole.** -/
theorem fgets_line {n : Nat} {body : List UInt8} (h : newline ∉ body)
    (hlen : body.length + 1 < n) (rest : List UInt8) :
    fgets n (body ++ newline :: rest) = some (body ++ [newline], rest) := by
  rw [fgets, if_neg (by simp), takeLine_line h (by omega)]

/-- `fgets` takes at least a byte. -/
theorem fgets_length {n : Nat} {input line rest : List UInt8} (hn : 2 ≤ n)
    (h : fgets n input = some (line, rest)) : rest.length < input.length := by
  rw [fgets] at h
  split at h
  · cases h
  · rename_i hne
    obtain ⟨m, hm⟩ : ∃ m, n - 1 = m + 1 := ⟨n - 2, by omega⟩
    have happ := congrArg List.length (takeLine_append (n - 1) input)
    have hpos : 0 < (takeLine (n - 1) input).1.length := by
      rw [hm]
      cases input with
      | nil => exact absurd rfl hne
      | cons x input =>
        rw [takeLine]
        split <;> simp
    have hrest : (takeLine (n - 1) input).2 = rest :=
      congrArg Prod.snd (Option.some_inj.1 h)
    rw [List.length_append, hrest] at happ
    omega

/-- The array after `fgets` and `line[strcspn(line, "\n")] = 0`, as far as it was written. -/
def cutNewline (line : List UInt8) : List UInt8 :=
  (line ++ [0]).set (strcspn (line ++ [0]) [newline]) 0

/-- The string ends where the newline was. -/
theorem cutNewline_append {line s r : List UInt8} {y : UInt8} (h0 : 0 ∉ s) (h : newline ∉ s)
    (hy : y = newline ∨ y = 0) (hr : s ++ y :: r = line ++ [0]) :
    cutNewline line = s ++ 0 :: r := by
  rw [cutNewline, ← hr, strcspn_append h0 h hy, List.set_append_right _ _ (Nat.le_refl _),
    Nat.sub_self]
  rfl

/-- A line without a NUL is cut at its end. -/
theorem cutNewline_line {body : List UInt8} (h : newline ∉ body) (h0 : 0 ∉ body) :
    cutNewline (body ++ [newline]) = body ++ [0, 0] :=
  cutNewline_append h0 h (Or.inl rfl) (List.append_assoc body [newline] [0]).symm

/-- A piece of a line without the newline is kept as it is. -/
theorem cutNewline_piece {body : List UInt8} (h : newline ∉ body) (h0 : 0 ∉ body) :
    cutNewline body = body ++ [0] :=
  cutNewline_append h0 h (Or.inr rfl) rfl

/-- The line up to a NUL is left, and the newline behind it is not seen. -/
theorem cstr_cutNewline {body : List UInt8} (h : newline ∉ body) :
    cstr (cutNewline (body ++ [newline])) = cstr body := by
  rcases cstr_split body with h0 | ⟨z, hz⟩
  · rw [cutNewline_line h h0, cstr_append_zero]
  · have hnl : newline ∉ cstr body := fun hmem => h (hz ▸ List.mem_append_left _ hmem)
    have hline : cstr body ++ 0 :: (z ++ [newline, 0]) = body ++ [newline] ++ [0] := by
      conv_rhs => rw [hz]
      simp
    rw [cutNewline_append (zero_notMem_cstr body) hnl (Or.inr rfl) hline, cstr_append_zero,
      cstr_of_zero_notMem (zero_notMem_cstr body)]

/-- The text of a line: what stands before its newline and before a NUL. -/
def lineText (line : List UInt8) : List UInt8 := (cstr line).takeWhile (fun x => x != newline)

theorem newline_notMem_lineText (line : List UInt8) : newline ∉ lineText line := by
  intro h
  simpa using List.mem_takeWhile_imp h

theorem zero_notMem_lineText (line : List UInt8) : 0 ∉ lineText line :=
  fun h => zero_notMem_cstr line ((List.takeWhile_sublist _).subset h)

/-- Behind the text there is a newline, or the NUL. -/
theorem lineText_split (line : List UInt8) :
    ∃ y r, (y = newline ∨ y = 0) ∧ lineText line ++ y :: r = line ++ [0] := by
  induction line with
  | nil => exact ⟨0, [], Or.inr rfl, rfl⟩
  | cons x line ih =>
    by_cases h0 : x = 0
    · subst h0
      exact ⟨0, line ++ [0], Or.inr rfl, rfl⟩
    · unfold lineText at ih ⊢
      rw [cstr_cons h0]
      by_cases hnl : x = newline
      · subst hnl
        exact ⟨newline, line ++ [0], Or.inl rfl, rfl⟩
      · obtain ⟨y, r, hy, hr⟩ := ih
        rw [List.takeWhile_cons_of_pos (by simpa using hnl)]
        exact ⟨y, r, hy, congrArg (x :: ·) hr⟩

/-- Whatever was read, its text is left. -/
theorem cstr_cutNewline_eq (line : List UInt8) : cstr (cutNewline line) = lineText line := by
  obtain ⟨y, r, hy, hr⟩ := lineText_split line
  have h0 := zero_notMem_lineText line
  rw [cutNewline_append h0 (newline_notMem_lineText line) hy hr, cstr_append_zero,
    cstr_of_zero_notMem h0]

/-! ### Numbers -/

/-- The value of a row of digits. -/
def digitsVal (ds : List UInt8) : Nat := ds.foldl (fun n x => 10 * n + (x.toNat - 48)) 0

/-- The nearest value of a `long`. -/
def clampLong (n : Int) : Int := max (-9223372036854775808) (min n 9223372036854775807)

/-- The low 32 bits, as an `int`. -/
def wrapInt (n : Int) : Int := n.bmod 4294967296

/-- `INT_MIN` to `INT_MAX` -/
def IsInt (n : Int) : Prop := -2147483648 ≤ n ∧ n ≤ 2147483647

/-- What `strtol` makes of a numeral, stored in an `int`. -/
def storeInt (neg : Bool) (ds : List UInt8) : Int :=
  wrapInt (clampLong (if neg then -(digitsVal ds : Int) else digitsVal ds))

theorem wrapInt_of_isInt {n : Int} (h : IsInt n) : wrapInt (clampLong n) = n := by
  obtain ⟨h1, h2⟩ := h
  have hclamp : clampLong n = n := by
    unfold clampLong
    omega
  rw [hclamp, wrapInt, Int.bmod_eq_of_le] <;> omega

/-- The optional sign of a numeral, and what follows. -/
def takeSign : List UInt8 → Bool × List UInt8
  | 45 :: input => (true, input)
  | 43 :: input => (false, input)
  | input => (false, input)

/-- `%d` -/
def scanInt (input : List UInt8) : Option (Int × List UInt8) :=
  let signed := takeSign (input.dropWhile isSpace)
  let ds := signed.2.takeWhile isDigit
  if ds = [] then none else some (storeInt signed.1 ds, signed.2.drop ds.length)

/-! ### Numerals in decimal -/

/-- The bytes of some characters. -/
def bytes (cs : List Char) : List UInt8 := cs.map (fun c => UInt8.ofNat c.toNat)

theorem decimal_natCast (n : Nat) : decimal n = bytes (Nat.toDigits 10 n) := by
  rw [decimal, text, bytes, Int.toString_eq_repr, Int.repr_eq_if, if_pos (by omega),
    Int.toNat_natCast, Nat.toList_repr]

theorem decimal_neg (n : Nat) (hn : 0 < n) :
    decimal (-(n : Int)) = 45 :: bytes (Nat.toDigits 10 n) := by
  rw [decimal, text, bytes, Int.toString_eq_repr, Int.repr_eq_if, if_neg (by omega),
    Int.neg_neg, Int.toNat_natCast, String.toList_append, Nat.toList_repr]
  rfl

theorem toNat_of_isDigit {c : Char} (h : c.isDigit = true) :
    (UInt8.ofNat c.toNat).toNat = c.toNat ∧ 48 ≤ c.toNat ∧ c.toNat ≤ 57 := by
  rw [Char.isDigit, Bool.and_eq_true, decide_eq_true_iff, decide_eq_true_iff] at h
  have h1 : 48 ≤ c.toNat := h.1
  have h2 : c.toNat ≤ 57 := h.2
  refine ⟨?_, h1, h2⟩
  rw [UInt8.toNat_ofNat']
  omega

theorem isDigit_bytes {cs : List Char} (h : ∀ c ∈ cs, c.isDigit = true) :
    ∀ x ∈ bytes cs, isDigit x = true := by
  intro x hx
  obtain ⟨c, hc, rfl⟩ := List.mem_map.1 hx
  obtain ⟨heq, h1, h2⟩ := toNat_of_isDigit (h c hc)
  rw [isDigit, Bool.and_eq_true, decide_eq_true_iff, decide_eq_true_iff, UInt8.le_iff_toNat_le,
    UInt8.le_iff_toNat_le, heq]
  exact ⟨h1, h2⟩

theorem digitsVal_bytes {cs : List Char} (h : ∀ c ∈ cs, c.isDigit = true) :
    digitsVal (bytes cs) = Nat.ofDigitChars 10 cs 0 := by
  rw [digitsVal, bytes, Nat.ofDigitChars_eq_foldl, List.foldl_map]
  apply List.foldl_ext
  intro n c hc
  rw [(toNat_of_isDigit (h c hc)).1]
  rfl

/-- The digits of a number. -/
theorem toDigits_spec (n : Nat) :
    bytes (Nat.toDigits 10 n) ≠ [] ∧ (∀ x ∈ bytes (Nat.toDigits 10 n), isDigit x = true) ∧
      digitsVal (bytes (Nat.toDigits 10 n)) = n := by
  have hdigit : ∀ c ∈ Nat.toDigits 10 n, c.isDigit = true :=
    fun c hc => Nat.isDigit_of_mem_toDigits (by omega) (by omega) hc
  refine ⟨?_, isDigit_bytes hdigit, ?_⟩
  · rw [bytes, ne_eq, List.map_eq_nil_iff]
    exact Nat.toDigits_ne_nil
  · rw [digitsVal_bytes hdigit, Nat.ofDigitChars_ten_toDigits]

theorem mem_decimal {n : Int} {x : UInt8} (h : x ∈ decimal n) : isDigit x = true ∨ x = 45 := by
  by_cases h0 : 0 ≤ n
  · obtain ⟨m, rfl⟩ := Int.eq_ofNat_of_zero_le h0
    rw [decimal_natCast] at h
    exact Or.inl ((toDigits_spec m).2.1 x h)
  · obtain ⟨m, hm⟩ := Int.eq_ofNat_of_zero_le (show 0 ≤ -n by omega)
    obtain rfl : n = -(m : Int) := by omega
    rw [decimal_neg m (by omega), List.mem_cons] at h
    rcases h with h | h
    · exact Or.inr h
    · exact Or.inl ((toDigits_spec m).2.1 x h)

/-- An `int` has at most ten digits and a sign. -/
theorem length_decimal {n : Int} (hn : IsInt n) : (decimal n).length ≤ 11 := by
  have hlen : ∀ m : Nat, m ≤ 2147483648 → (bytes (Nat.toDigits 10 m)).length ≤ 10 := by
    intro m hm
    rw [bytes, List.length_map, Nat.length_toDigits_le_iff (by omega) (by omega)]
    omega
  obtain ⟨h1, h2⟩ := hn
  by_cases h0 : 0 ≤ n
  · obtain ⟨m, rfl⟩ := Int.eq_ofNat_of_zero_le h0
    rw [decimal_natCast]
    have := hlen m (by omega)
    omega
  · obtain ⟨m, hm⟩ := Int.eq_ofNat_of_zero_le (show 0 ≤ -n by omega)
    obtain rfl : n = -(m : Int) := by omega
    rw [decimal_neg m (by omega), List.length_cons]
    have := hlen m (by omega)
    omega

/-- A text that does not go on with a digit. -/
def EndsNumeral (rest : List UInt8) : Prop := ∀ x ∈ rest.head?, isDigit x = false

theorem takeWhile_digits {ds rest : List UInt8} (h : ∀ x ∈ ds, isDigit x = true)
    (hrest : EndsNumeral rest) : (ds ++ rest).takeWhile isDigit = ds := by
  rw [List.takeWhile_append_of_pos h]
  cases rest with
  | nil => simp
  | cons x rest =>
    rw [List.takeWhile_cons_of_neg, List.append_nil]
    rw [hrest x rfl]
    decide

/-- A digit is no white space and no sign. -/
theorem isDigit_spec {x : UInt8} (h : isDigit x = true) :
    isSpace x = false ∧ x ≠ 45 ∧ x ≠ 43 := by
  rw [isDigit, Bool.and_eq_true, decide_eq_true_iff, decide_eq_true_iff, UInt8.le_iff_toNat_le,
    UInt8.le_iff_toNat_le] at h
  have h1 : 48 ≤ x.toNat := h.1
  have hne : ∀ y : UInt8, y.toNat < 48 → x ≠ y := by
    rintro y hy rfl
    omega
  refine ⟨?_, hne 45 (by decide), hne 43 (by decide)⟩
  have h13 : ¬ x ≤ 13 := by
    rw [UInt8.le_iff_toNat_le]
    show ¬ x.toNat ≤ 13
    omega
  simp [isSpace, hne 32 (by decide), h13]

/-- `%d` on a row of digits, with or without a minus sign before it. -/
theorem scanInt_digits {ds rest : List UInt8} (hne : ds ≠ [])
    (hds : ∀ x ∈ ds, isDigit x = true) (hrest : EndsNumeral rest) :
    scanInt (ds ++ rest) = some (storeInt false ds, rest) ∧
      scanInt (45 :: (ds ++ rest)) = some (storeInt true ds, rest) := by
  have htake := takeWhile_digits hds hrest
  have hdrop : (ds ++ rest).drop ds.length = rest := List.drop_left
  constructor
  · obtain ⟨x, ds', rfl⟩ := List.exists_cons_of_ne_nil hne
    obtain ⟨hsp, hminus, hplus⟩ := isDigit_spec (hds x List.mem_cons_self)
    have hskip : (x :: ds' ++ rest).dropWhile isSpace = x :: ds' ++ rest := by
      rw [List.cons_append, List.dropWhile_cons_of_neg]
      rw [hsp]
      decide
    have hsign : takeSign (x :: ds' ++ rest) = (false, x :: ds' ++ rest) := by
      rw [List.cons_append, takeSign]
      · exact fun _ h => hminus (List.cons.inj h).1
      · exact fun _ h => hplus (List.cons.inj h).1
    simp only [scanInt, hskip, hsign, htake, hne, if_false, hdrop]
  · have hskip : (45 :: (ds ++ rest)).dropWhile isSpace = 45 :: (ds ++ rest) :=
      List.dropWhile_cons_of_neg (by decide)
    have hsign : takeSign (45 :: (ds ++ rest)) = (true, ds ++ rest) := rfl
    simp only [scanInt, hskip, hsign, htake, hne, if_false, hdrop]

/-- **What `%d` prints is read back by `%d`.** -/
theorem scanInt_decimal {n : Int} (hn : IsInt n) {rest : List UInt8} (hrest : EndsNumeral rest) :
    scanInt (decimal n ++ rest) = some (n, rest) := by
  by_cases h0 : 0 ≤ n
  · obtain ⟨m, rfl⟩ := Int.eq_ofNat_of_zero_le h0
    obtain ⟨hne, hds, hval⟩ := toDigits_spec m
    rw [decimal_natCast, (scanInt_digits hne hds hrest).1, storeInt, hval, if_neg (by decide),
      wrapInt_of_isInt hn]
  · obtain ⟨m, hm⟩ := Int.eq_ofNat_of_zero_le (show 0 ≤ -n by omega)
    obtain rfl : n = -(m : Int) := by omega
    obtain ⟨hne, hds, hval⟩ := toDigits_spec m
    rw [decimal_neg m (by omega), List.cons_append, (scanInt_digits hne hds hrest).2, storeInt,
      hval, if_pos rfl, wrapInt_of_isInt hn]

/-! ### Directives -/

inductive Directive
  /-- white space in the format -/
  | space
  /-- `%<width>s` -/
  | str (width : Nat)
  /-- `%[^...]` -/
  | notIn (set : List UInt8)
  /-- `%d` -/
  | int

inductive Value
  | str (s : List UInt8)
  | int (n : Int)
  deriving DecidableEq

/-- The values stored. -/
def scan : List Directive → List UInt8 → List Value
  | [], _ => []
  | .space :: ds, input => scan ds (input.dropWhile isSpace)
  | .str width :: ds, input =>
    let word := ((input.dropWhile isSpace).takeWhile (fun x => !isSpace x)).take width
    if word = [] then []
    else .str word :: scan ds ((input.dropWhile isSpace).drop word.length)
  | .notIn set :: ds, input =>
    let word := input.takeWhile (fun x => !set.contains x)
    if word = [] then [] else .str word :: scan ds (input.drop word.length)
  | .int :: ds, input =>
    match scanInt input with
    | none => []
    | some (n, rest) => .int n :: scan ds rest

/-! ### What a directive reads -/

/-- White space in the format before `%d` changes nothing. -/
theorem scan_space_int (ds : List Directive) (input : List UInt8) :
    scan (.space :: .int :: ds) input = scan (.int :: ds) input := by
  simp only [scan, scanInt, List.dropWhile_idempotent]

theorem scan_int_decimal {n : Int} (hn : IsInt n) {rest : List UInt8} (hrest : EndsNumeral rest)
    (ds : List Directive) : scan (.int :: ds) (decimal n ++ rest) = .int n :: scan ds rest := by
  rw [scan, scanInt_decimal hn hrest]

/-- A word without white space that fits, and white space behind it. -/
theorem scan_str {width : Nat} {word : List UInt8} (hne : word ≠ [])
    (hword : ∀ x ∈ word, isSpace x = false) (hlen : word.length ≤ width) {y : UInt8}
    (hy : isSpace y = true) (rest : List UInt8) (ds : List Directive) :
    scan (.str width :: ds) (word ++ y :: rest) = .str word :: scan ds (y :: rest) := by
  have hskip : (word ++ y :: rest).dropWhile isSpace = word ++ y :: rest := by
    obtain ⟨x, word', rfl⟩ := List.exists_cons_of_ne_nil hne
    rw [List.cons_append, List.dropWhile_cons_of_neg]
    rw [hword x List.mem_cons_self]
    decide
  have htake : (word ++ y :: rest).takeWhile (fun x => !isSpace x) = word := by
    rw [List.takeWhile_append_of_pos (fun x hx => by rw [hword x hx]; rfl),
      List.takeWhile_cons_of_neg, List.append_nil]
    rw [hy]
    decide
  simp only [scan, hskip, htake, List.take_of_length_le hlen, hne, if_false, List.drop_left]

/-- A text with none of the bytes that end it, after white space. -/
theorem scan_space_notIn {set text : List UInt8} (hne : text ≠ []) (hset : ∀ x ∈ text, x ∉ set)
    (hhead : ∀ x ∈ text.head?, isSpace x = false) {y : UInt8} (hy : isSpace y = true)
    (ds : List Directive) :
    scan (.space :: .notIn set :: ds) (y :: text) = .str text :: scan ds [] := by
  have hskip : (y :: text).dropWhile isSpace = text := by
    obtain ⟨x, text', rfl⟩ := List.exists_cons_of_ne_nil hne
    rw [List.dropWhile_cons_of_pos hy, List.dropWhile_cons_of_neg]
    rw [hhead x rfl]
    decide
  have htake : text.takeWhile (fun x => !set.contains x) = text := by
    rw [List.takeWhile_eq_self_iff]
    intro x hx
    simpa using hset x hx
  simp only [scan, hskip, htake, hne, if_false, List.drop_length]

/-- `sscanf` on the C string at the start of an array. -/
def sscanf (s : List UInt8) (format : List Directive) : List Value := scan format (cstr s)

end Stdio
