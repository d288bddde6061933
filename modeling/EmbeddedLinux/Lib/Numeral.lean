import EmbeddedLinux.Lib.Stdio

/-!
# What a scan has read

`NumeralAt input v rest` says that the text `input` is white space, a decimal numeral with the value
`v`, and a `rest` that does not go on with a digit.  It describes the text alone.
`%d` succeeds exactly on such a text (`scanInt_eq_some_iff`); what it stores is `v` cut to an
`int`.  The same for a word and a numeral behind it (`sscanf_str_int_iff`) and for a numeral and a
message (`sscanf_int_notIn_iff`).  `atoi` gives the same number, and 0 for any other text
(`atoi_cases`).
-/

namespace Stdio

open CString

def Blanks (s : List UInt8) : Prop := ∀ x ∈ s, isSpace x = true

def StartsBlank (s : List UInt8) : Prop := ∃ x ∈ s.head?, isSpace x = true

/-- A word, without white space and without a NUL. -/
def IsWord (s : List UInt8) : Prop := s ≠ [] ∧ ∀ x ∈ s, isSpace x = false ∧ x ≠ 0

/-- The value of a sign and a row of digits. -/
def signed (neg : Bool) (ds : List UInt8) : Int :=
  if neg then -(digitsVal ds : Int) else digitsVal ds

/-- An optional sign and at least a digit. -/
def Numeral (num : List UInt8) (v : Int) : Prop :=
  ∃ neg ds, takeSign num = (neg, ds) ∧ ds ≠ [] ∧ (∀ x ∈ ds, isDigit x = true) ∧ v = signed neg ds

def NumeralAt (input : List UInt8) (v : Int) (rest : List UInt8) : Prop :=
  ∃ ws num, input = ws ++ (num ++ rest) ∧ Blanks ws ∧ Numeral num v ∧ EndsNumeral rest

/-! ### The numeral at the start of a text -/

/-- White space, sign, digits and rest, computed. -/
def readNumeral (input : List UInt8) : Option (Int × List UInt8) :=
  let sign := takeSign (input.dropWhile isSpace)
  let ds := sign.2.takeWhile isDigit
  if ds = [] then none else some (signed sign.1 ds, sign.2.drop ds.length)

theorem scanInt_eq (input : List UInt8) :
    scanInt input = (readNumeral input).map (fun r => (wrapInt (clampLong r.1), r.2)) := by
  unfold scanInt readNumeral
  simp only
  split <;> rfl

theorem takeSign_spec (s : List UInt8) :
    (s = 45 :: (takeSign s).2 ∧ (takeSign s).1 = true) ∨
      (s = 43 :: (takeSign s).2 ∧ (takeSign s).1 = false) ∨ takeSign s = (false, s) := by
  unfold takeSign
  split
  · exact Or.inl ⟨rfl, rfl⟩
  · exact Or.inr (Or.inl ⟨rfl, rfl⟩)
  · exact Or.inr (Or.inr rfl)

/-- A digit is no sign. -/
theorem takeSign_digit {x : UInt8} (hx : isDigit x = true) (s : List UInt8) :
    takeSign (x :: s) = (false, x :: s) := by
  obtain ⟨-, hminus, hplus⟩ := isDigit_spec hx
  rw [takeSign]
  · exact fun _ h => hminus (List.cons.inj h).1
  · exact fun _ h => hplus (List.cons.inj h).1

/-- What a numeral looks like. -/
theorem Numeral.cases {num : List UInt8} {v : Int} (h : Numeral num v) :
    ∃ sign neg ds, num = sign ++ ds ∧ ds ≠ [] ∧ (∀ x ∈ ds, isDigit x = true) ∧ v = signed neg ds ∧
      (∀ r, takeSign (sign ++ (ds ++ r)) = (neg, ds ++ r)) ∧
        ∀ x ∈ (sign ++ ds).head?, isSpace x = false ∧ x ≠ 0 := by
  obtain ⟨neg, ds, hsign, hne, hds, hv⟩ := h
  obtain ⟨x, ds', rfl⟩ := List.exists_cons_of_ne_nil hne
  have hspec := takeSign_spec num
  rw [hsign] at hspec
  obtain ⟨hnum, rfl⟩ | ⟨hnum, rfl⟩ | hnum := hspec
  · refine ⟨[45], true, x :: ds', hnum, hne, hds, hv, fun _ => rfl, ?_⟩
    intro y hy
    cases hy
    exact ⟨rfl, by decide⟩
  · refine ⟨[43], false, x :: ds', hnum, hne, hds, hv, fun _ => rfl, ?_⟩
    intro y hy
    cases hy
    exact ⟨rfl, by decide⟩
  · cases hnum
    have hx := hds x List.mem_cons_self
    refine ⟨[], false, x :: ds', rfl, hne, hds, hv, fun r => takeSign_digit hx _, ?_⟩
    intro y hy
    cases hy
    refine ⟨(isDigit_spec hx).1, ?_⟩
    rintro rfl
    cases hx

/-- What is left does not begin with what was dropped. -/
theorem head_dropWhile {p : UInt8 → Bool} {s : List UInt8} :
    ∀ x ∈ (s.dropWhile p).head?, p x = false := by
  intro x hx
  have h := List.head?_dropWhile_not p s
  rw [Option.mem_def.1 hx] at h
  exact h

theorem drop_takeWhile (p : UInt8 → Bool) (s : List UInt8) :
    s.drop (s.takeWhile p).length = s.dropWhile p := by
  have h := @List.drop_left _ (s.takeWhile p) (s.dropWhile p)
  rwa [List.takeWhile_append_dropWhile] at h

theorem blanks_takeWhile (s : List UInt8) : Blanks (s.takeWhile isSpace) :=
  fun _ hx => List.mem_takeWhile_imp hx

theorem dropWhile_blanks {ws s : List UInt8} (hws : Blanks ws)
    (hs : ∀ x ∈ s.head?, isSpace x = false) : (ws ++ s).dropWhile isSpace = s := by
  rw [List.dropWhile_append_of_pos hws]
  cases s with
  | nil => rfl
  | cons x s => exact List.dropWhile_cons_of_neg (by simp [hs x rfl])

/-- **The numeral is determined by the text.** -/
theorem numeralAt_iff {input rest : List UInt8} {v : Int} :
    NumeralAt input v rest ↔ readNumeral input = some (v, rest) := by
  constructor
  · rintro ⟨ws, num, rfl, hws, hnum, hrest⟩
    obtain ⟨sign, neg, ds, rfl, hne, hds, rfl, hsign, hhead⟩ := hnum.cases
    have hdrop : (ws ++ (sign ++ ds ++ rest)).dropWhile isSpace = sign ++ (ds ++ rest) := by
      rw [List.append_assoc]
      refine dropWhile_blanks hws (fun x hx => (hhead x ?_).1)
      rw [← List.append_assoc, List.head?_append_of_ne_nil _ (by simp [hne])] at hx
      exact hx
    unfold readNumeral
    simp only [hdrop, hsign, takeWhile_digits hds hrest, if_neg hne, List.drop_left]
  · intro h
    unfold readNumeral at h
    simp only at h
    split at h
    · cases h
    · rename_i hne
      cases h
      rw [drop_takeWhile]
      have hds : ∀ x ∈ (takeSign (input.dropWhile isSpace)).2.takeWhile isDigit,
          isDigit x = true := fun x hx => List.mem_takeWhile_imp hx
      have hsplit := List.takeWhile_append_dropWhile (p := isDigit)
        (l := (takeSign (input.dropWhile isSpace)).2)
      have hinput := List.takeWhile_append_dropWhile (p := isSpace) (l := input)
      obtain ⟨hs, hneg⟩ | ⟨hs, hneg⟩ | hs := takeSign_spec (input.dropWhile isSpace)
      · refine ⟨_, 45 :: (takeSign (input.dropWhile isSpace)).2.takeWhile isDigit, ?_,
          blanks_takeWhile input, ⟨true, _, rfl, hne, hds, by rw [hneg]⟩, head_dropWhile⟩
        rw [List.cons_append, hsplit, ← hs, hinput]
      · refine ⟨_, 43 :: (takeSign (input.dropWhile isSpace)).2.takeWhile isDigit, ?_,
          blanks_takeWhile input, ⟨false, _, rfl, hne, hds, by rw [hneg]⟩, head_dropWhile⟩
        rw [List.cons_append, hsplit, ← hs, hinput]
      · rw [hs] at hne hds hsplit ⊢
        refine ⟨_, (input.dropWhile isSpace).takeWhile isDigit, ?_, blanks_takeWhile input,
          ⟨false, _, ?_, hne, hds, rfl⟩, head_dropWhile⟩
        · rw [hsplit, hinput]
        · obtain ⟨x, ds, hx⟩ := List.exists_cons_of_ne_nil hne
          simp only at hx hds
          rw [hx] at hds ⊢
          exact takeSign_digit (hds x List.mem_cons_self) ds

/-- A numeral alone. -/
theorem Numeral.numeralAt {num : List UInt8} {v : Int} (h : Numeral num v) : NumeralAt num v [] :=
  ⟨[], num, by simp, by simp [Blanks], h, by simp [EndsNumeral]⟩

theorem NumeralAt.unique {input rest rest' : List UInt8} {v v' : Int} (h : NumeralAt input v rest)
    (h' : NumeralAt input v' rest') : v = v' ∧ rest = rest' := by
  rw [numeralAt_iff] at h h'
  rw [h] at h'
  cases h'
  exact ⟨rfl, rfl⟩

/-- **What `%d` reads.** -/
theorem scanInt_eq_some_iff {input rest : List UInt8} {n : Int} :
    scanInt input = some (n, rest) ↔
      ∃ v, NumeralAt input v rest ∧ n = wrapInt (clampLong v) := by
  rw [scanInt_eq, Option.map_eq_some_iff]
  constructor
  · rintro ⟨⟨v, r⟩, hread, heq⟩
    cases heq
    exact ⟨v, numeralAt_iff.2 hread, rfl⟩
  · rintro ⟨v, hat, rfl⟩
    exact ⟨(v, rest), numeralAt_iff.1 hat, rfl⟩

/-- `strtol(s, &end, 10)`: the value, and the string at `end`, which is all of it when there is no
numeral. -/
def strtol (s : List UInt8) : Int × List UInt8 :=
  match readNumeral (cstr s) with
  | some (v, rest) => (clampLong v, rest)
  | none => (0, cstr s)

theorem strtol_of_numeralAt {s rest : List UInt8} {v : Int} (h : NumeralAt (cstr s) v rest) :
    strtol s = (clampLong v, rest) := by
  rw [strtol, numeralAt_iff.1 h]

theorem strtol_of_not {s : List UInt8} (h : ∀ v rest, ¬ NumeralAt (cstr s) v rest) :
    strtol s = (0, cstr s) := by
  have hnone : readNumeral (cstr s) = none := by
    rw [Option.eq_none_iff_forall_ne_some]
    rintro ⟨v, rest⟩ hread
    exact h v rest (numeralAt_iff.2 hread)
  rw [strtol, hnone]

/-- `atoi`, as in glibc -/
def atoi (s : List UInt8) : Int := wrapInt (strtol s).1

/-- A text that begins with no number is taken for 0. -/
theorem atoi_cases (s : List UInt8) :
    (∃ v rest, NumeralAt (cstr s) v rest ∧ atoi s = wrapInt (clampLong v)) ∨
      (∀ v rest, ¬ NumeralAt (cstr s) v rest) ∧ atoi s = 0 := by
  unfold atoi
  by_cases h : ∃ v rest, NumeralAt (cstr s) v rest
  · left
    obtain ⟨v, rest, hat⟩ := h
    exact ⟨v, rest, hat, by rw [strtol_of_numeralAt hat]⟩
  · right
    have hnot : ∀ v rest, ¬ NumeralAt (cstr s) v rest := fun v rest hat => h ⟨v, rest, hat⟩
    refine ⟨hnot, ?_⟩
    rw [strtol_of_not hnot]
    rfl

/-- There is no NUL behind the numeral of a C string. -/
theorem NumeralAt.zero_notMem {s rest : List UInt8} {v : Int} (h : NumeralAt (cstr s) v rest) :
    0 ∉ rest := by
  obtain ⟨ws, num, hs, -⟩ := h
  intro hmem
  refine zero_notMem_cstr s ?_
  rw [hs]
  exact List.mem_append_right _ (List.mem_append_right _ hmem)

/-- A stored value is one of an `int`. -/
theorem isInt_wrapInt (n : Int) : IsInt (wrapInt n) := by
  have h1 := Int.le_bmod (x := n) (m := 4294967296) (by decide)
  have h2 := Int.bmod_lt (x := n) (m := 4294967296) (by decide)
  constructor
  · exact h1
  · exact Int.le_of_lt_add_one h2

/-- It is the value of the numeral only if that is one. -/
theorem wrapInt_eq_iff {v : Int} : wrapInt (clampLong v) = v ↔ IsInt v :=
  ⟨fun h => h ▸ isInt_wrapInt _, wrapInt_of_isInt⟩

/-! ### Texts that a NUL ends -/

/-- White space is no NUL. -/
theorem Blanks.zero_notMem {ws : List UInt8} (h : Blanks ws) : 0 ∉ ws := by
  intro h0
  cases h 0 h0

theorem Numeral.zero_notMem {num : List UInt8} {v : Int} (h : Numeral num v) : 0 ∉ num := by
  obtain ⟨neg, ds, hsign, -, hds, -⟩ := h
  have h0 : 0 ∉ ds := by
    intro h0
    cases hds 0 h0
  have hspec := takeSign_spec num
  rw [hsign] at hspec
  obtain ⟨hnum, -⟩ | ⟨hnum, -⟩ | hnum := hspec
  · rw [hnum, List.mem_cons, not_or]
    exact ⟨by decide, h0⟩
  · rw [hnum, List.mem_cons, not_or]
    exact ⟨by decide, h0⟩
  · cases hnum
    exact h0

theorem endsNumeral_cstr {rest : List UInt8} : EndsNumeral (cstr rest) ↔ EndsNumeral rest := by
  cases rest with
  | nil => exact Iff.rfl
  | cons x rest =>
    by_cases hx : x = 0
    · subst hx
      exact ⟨fun _ y hy => (by cases hy; rfl), fun _ y hy => (by cases hy)⟩
    · rw [cstr_cons hx]
      exact Iff.rfl

/-- The NUL comes after the numeral. -/
theorem numeralAt_cstr {input r : List UInt8} {v : Int} :
    NumeralAt (cstr input) v r ↔ ∃ rest, NumeralAt input v rest ∧ cstr rest = r := by
  constructor
  · rintro ⟨ws, num, hinput, hws, hnum, hend⟩
    obtain ⟨b, rfl, hb⟩ := cstr_eq_append hinput
    obtain ⟨rest, rfl, hrest⟩ := cstr_eq_append hb
    exact ⟨rest, ⟨ws, num, rfl, hws, hnum, endsNumeral_cstr.1 (hrest ▸ hend)⟩, hrest⟩
  · rintro ⟨rest, ⟨ws, num, rfl, hws, hnum, hend⟩, rfl⟩
    refine ⟨ws, num, ?_, hws, hnum, endsNumeral_cstr.2 hend⟩
    rw [cstr_append hws.zero_notMem, cstr_append hnum.zero_notMem]

/-! ### What is stored -/

variable {s ip m set : List UInt8} {n : Int} {w : Nat}

/-- `%d` -/
theorem sscanf_int_iff : sscanf s [.int] = [.int n] ↔
    ∃ v rest, NumeralAt s v rest ∧ n = wrapInt (clampLong v) := by
  unfold sscanf scan
  constructor
  · intro h
    cases hint : scanInt (cstr s) with
    | none =>
      rw [hint] at h
      cases h
    | some r =>
      rw [hint] at h
      cases h
      obtain ⟨v, hat, hn⟩ := scanInt_eq_some_iff.1 hint
      obtain ⟨rest, hrest, -⟩ := numeralAt_cstr.1 hat
      exact ⟨v, rest, hrest, hn⟩
  · rintro ⟨v, rest, hat, hn⟩
    have hint := scanInt_eq_some_iff.2 ⟨v, numeralAt_cstr.2 ⟨rest, hat, rfl⟩, hn⟩
    rw [hint]
    rfl

theorem cstr_dropWhile (s : List UInt8) :
    cstr (s.dropWhile isSpace) = (cstr s).dropWhile isSpace := by
  induction s with
  | nil => rfl
  | cons x s ih =>
    by_cases hx : x = 0
    · subst hx
      rfl
    · rw [cstr_cons hx, List.dropWhile_cons, List.dropWhile_cons]
      split
      · exact ih
      · exact cstr_cons hx s

/-- `%d %[^...]`, on a text with none of the bytes that end the second. -/
theorem sscanf_int_notIn_iff (hs : ∀ x ∈ cstr s, x ∉ set) :
    sscanf s [.int, .space, .notIn set] = [.int n, .str m] ↔
      ∃ v rest, NumeralAt s v rest ∧ n = wrapInt (clampLong v) ∧
        m = cstr (rest.dropWhile isSpace) ∧ m ≠ [] := by
  -- all of the rest is taken
  have htake : ∀ v rest, NumeralAt s v rest →
      (cstr (rest.dropWhile isSpace)).takeWhile (fun x => !set.contains x) =
        cstr (rest.dropWhile isSpace) := by
    rintro v rest ⟨ws, num, rfl, hws, hnum, -⟩
    rw [List.takeWhile_eq_self_iff]
    intro x hx
    rw [cstr_dropWhile] at hx
    have hmem : x ∈ cstr (ws ++ (num ++ rest)) := by
      rw [cstr_append hws.zero_notMem, cstr_append hnum.zero_notMem]
      exact List.mem_append_right _
        (List.mem_append_right _ ((List.dropWhile_sublist _).subset hx))
    simpa using hs x hmem
  constructor
  · intro h
    unfold sscanf scan at h
    cases hint : scanInt (cstr s) with
    | none =>
      rw [hint] at h
      cases h
    | some r =>
      obtain ⟨n', r⟩ := r
      rw [hint] at h
      obtain ⟨v, hat, hn⟩ := scanInt_eq_some_iff.1 hint
      obtain ⟨rest, hrest, rfl⟩ := numeralAt_cstr.1 hat
      simp only [scan, ← cstr_dropWhile, htake v rest hrest] at h
      split at h
      · cases h
      · rename_i hne
        cases h
        exact ⟨v, rest, hrest, hn, rfl, hne⟩
  · rintro ⟨v, rest, hat, hn, rfl, hne⟩
    have hint := scanInt_eq_some_iff.2 ⟨v, numeralAt_cstr.2 ⟨rest, hat, rfl⟩, hn⟩
    unfold sscanf scan
    rw [hint]
    simp only [scan, ← cstr_dropWhile, htake v rest hat, if_neg hne]

/-- The first byte is a blank, also with a NUL behind. -/
theorem startsBlank_cstr {args : List UInt8} : StartsBlank (cstr args) ↔ StartsBlank args := by
  cases args with
  | nil => exact Iff.rfl
  | cons x args =>
    by_cases hx : x = 0
    · subst hx
      constructor
      · rintro ⟨y, hy, -⟩
        cases hy
      · rintro ⟨y, hy, hspace⟩
        cases hy
        cases hspace
    · rw [cstr_cons hx]
      exact Iff.rfl

/-- What `%<w>s` takes is the front of the text, up to white space or to `w` bytes. -/
theorem take_word (t : List UInt8) (w : Nat) :
    ∃ args, t = (t.takeWhile (fun x => !isSpace x)).take w ++ args ∧
      (StartsBlank args ∨ args = [] ∨ ((t.takeWhile (fun x => !isSpace x)).take w).length = w) := by
  have hsplit := List.takeWhile_append_dropWhile (p := fun x => !isSpace x) (l := t)
  by_cases hw : w ≤ (t.takeWhile (fun x => !isSpace x)).length
  · refine ⟨(t.takeWhile (fun x => !isSpace x)).drop w ++ t.dropWhile (fun x => !isSpace x), ?_,
      Or.inr (Or.inr ?_)⟩
    · rw [← List.append_assoc, List.take_append_drop, hsplit]
    · rw [List.length_take]
      omega
  · refine ⟨t.dropWhile (fun x => !isSpace x), ?_, ?_⟩
    · rw [List.take_of_length_le (by omega), hsplit]
    · have hhead := head_dropWhile (p := fun x => !isSpace x) (s := t)
      cases hd : t.dropWhile (fun x => !isSpace x) with
      | nil => exact Or.inr (Or.inl rfl)
      | cons x r =>
        rw [hd] at hhead
        exact Or.inl ⟨x, rfl, by simpa using hhead x rfl⟩

/-- A word does not begin with white space. -/
theorem IsWord.head (hword : IsWord ip) (r : List UInt8) :
    ∀ x ∈ (ip ++ r).head?, isSpace x = false := by
  intro x hx
  obtain ⟨y, ip', rfl⟩ := List.exists_cons_of_ne_nil hword.1
  cases hx
  exact (hword.2 _ List.mem_cons_self).1

/-- A word at the front is taken. -/
theorem take_word_eq {r : List UInt8} (hword : IsWord ip) (hlen : ip.length ≤ w)
    (hcut : StartsBlank r ∨ ip.length = w) :
    ((ip ++ r).takeWhile (fun x => !isSpace x)).take w = ip := by
  rw [List.takeWhile_append_of_pos (fun x hx => by rw [(hword.2 x hx).1]; rfl)]
  rcases hcut with ⟨y, hy, hspace⟩ | rfl
  · cases r with
    | nil => cases hy
    | cons x r =>
      cases hy
      rw [List.takeWhile_cons_of_neg (by rw [hspace]; decide), List.append_nil,
        List.take_of_length_le hlen]
  · exact List.take_left

/-- `%<w>s %d` -/
theorem sscanf_str_int_iff : sscanf s [.str w, .space, .int] = [.str ip, .int n] ↔
    ∃ ws args v rest, s = ws ++ (ip ++ args) ∧ Blanks ws ∧ IsWord ip ∧ ip.length ≤ w ∧
      (StartsBlank args ∨ ip.length = w) ∧ NumeralAt args v rest ∧
        n = wrapInt (clampLong v) := by
  constructor
  · intro h
    unfold sscanf scan at h
    simp only at h
    split at h
    · cases h
    · rename_i hne
      rw [scan_space_int] at h
      obtain ⟨hip, hint⟩ := List.cons.inj h
      obtain ⟨args₀, ht, hcut⟩ := take_word ((cstr s).dropWhile isSpace) w
      rw [Value.str.inj hip] at ht hcut hint hne
      have hspace := List.takeWhile_append_dropWhile (p := isSpace) (l := cstr s)
      rw [ht] at hspace
      have hmem : ∀ x ∈ ip, isSpace x = false ∧ x ≠ 0 := by
        intro x hx
        constructor
        · have := List.mem_takeWhile_imp (List.mem_of_mem_take (Value.str.inj hip ▸ hx))
          simpa using this
        · rintro rfl
          refine zero_notMem_cstr s ?_
          rw [← hspace]
          exact List.mem_append_right _ (List.mem_append_left _ hx)
      obtain ⟨b, hb, hb'⟩ := cstr_eq_append hspace.symm
      obtain ⟨args, rfl, rfl⟩ := cstr_eq_append hb'
      rw [ht, List.drop_left] at hint
      obtain ⟨v, rest, hat, hn⟩ := sscanf_int_iff.1 hint
      refine ⟨_, args, v, rest, hb, blanks_takeWhile _, ⟨hne, hmem⟩, ?_, ?_, hat, hn⟩
      · rw [← Value.str.inj hip]
        exact List.length_take_le ..
      · obtain hblank | hnil | hlen := hcut
        · exact Or.inl (startsBlank_cstr.1 hblank)
        · rw [hnil] at hint
          cases hint
        · exact Or.inr hlen
  · rintro ⟨ws, args, v, rest, rfl, hws, hword, hlen, hcut, hat, hn⟩
    have h0 : 0 ∉ ip := fun h0 => (hword.2 0 h0).2 rfl
    have hskip : (cstr (ws ++ (ip ++ args))).dropWhile isSpace = ip ++ cstr args := by
      rw [cstr_append hws.zero_notMem, cstr_append h0]
      exact dropWhile_blanks hws (hword.head _)
    have htake := take_word_eq hword hlen (hcut.imp_left startsBlank_cstr.2)
    have hint : scan [.int] (cstr args) = [.int n] := sscanf_int_iff.2 ⟨v, rest, hat, hn⟩
    unfold sscanf scan
    simp only [hskip, htake, if_neg hword.1, List.drop_left]
    rw [scan_space_int, hint]

end Stdio
