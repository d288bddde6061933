import EmbeddedLinux.Lib.Stdio

/-!
# IPv4 addresses

`inetPton` reads an address in dotted decimal, byte by byte as the C library does: four numbers
up to 255, with a point between two of them and no zero before another digit.  So what it accepts
has at most 15 bytes (`length_of_inetPton`), and fits into an array of `INET_ADDRSTRLEN`; and
it is the text that `inetNtop` prints for the address (`inetPton_eq_some_iff`).
-/

namespace Inet

open CString Stdio

structure Address where
  a : UInt8
  b : UInt8
  c : UInt8
  d : UInt8
  deriving DecidableEq

/-- The octets that a point has ended, and the one that has been begun. -/
structure Octets where
  ended : List Nat
  begun : Option Nat

def point : UInt8 := 46

/-- One byte of `src`. -/
def inetStep (o : Octets) (ch : UInt8) : Option Octets :=
  if isDigit ch then
    let digit := ch.toNat - 48
    match o.begun with
    | none => if o.ended.length ≥ 4 then none else some { o with begun := some digit }
    | some octet =>
      if octet = 0 then none
      else if 10 * octet + digit > 255 then none
      else some { o with begun := some (10 * octet + digit) }
  else if ch = point then
    match o.begun with
    | none => none
    | some octet =>
      if o.ended.length + 1 = 4 then none
      else some { ended := o.ended ++ [octet], begun := none }
  else none

/-- The end of `src`. -/
def inetEnd (o : Octets) : Option Address :=
  match o.ended, o.begun with
  | [a, b, c], some d =>
    some { a := UInt8.ofNat a, b := UInt8.ofNat b, c := UInt8.ofNat c, d := UInt8.ofNat d }
  | _, _ => none

/-- `inet_pton(AF_INET, src, dst)`: the address, or `none` where it returns 0. -/
def inetPton (src : List UInt8) : Option Address :=
  ((cstr src).foldlM inetStep { ended := [], begun := none }).bind inetEnd

/-! ### What is accepted is short -/

/-- How many digits a number up to 255 has. -/
def width (octet : Option Nat) : Nat :=
  match octet with
  | none => 0
  | some octet => if octet < 10 then 1 else if octet < 100 then 2 else 3

/-- The most bytes that can have been read. -/
def Octets.bound (o : Octets) : Nat := 4 * o.ended.length + width o.begun

theorem width_le (octet : Option Nat) : width octet ≤ 3 := by
  unfold width
  split
  · omega
  · split
    · omega
    · split <;> omega

theorem width_pos (octet : Nat) : 1 ≤ width (some octet) := by
  unfold width
  simp only
  split
  · omega
  · split <;> omega

/-- Another digit makes the number longer. -/
theorem width_digit {octet digit : Nat} (h0 : octet ≠ 0) (h255 : 10 * octet + digit ≤ 255) :
    width (some octet) < width (some (10 * octet + digit)) := by
  unfold width
  simp only
  have h10 : ¬ 10 * octet + digit < 10 := by omega
  rw [if_neg h10]
  split
  · split <;> omega
  · have h100 : ¬ 10 * octet + digit < 100 := by omega
    rw [if_neg h100, if_pos (by omega)]
    omega

theorem inetStep_bound {o o' : Octets} {ch : UInt8} (h : inetStep o ch = some o') :
    o.bound + 1 ≤ o'.bound := by
  obtain ⟨ended, begun⟩ := o
  unfold inetStep at h
  split at h
  · cases begun with
    | none =>
      simp only at h
      split at h
      · cases h
      · cases h
        have hpos := width_pos (ch.toNat - 48)
        have hnone : width none = 0 := rfl
        simp only [Octets.bound]
        omega
    | some octet =>
      simp only at h
      split at h
      · cases h
      · rename_i h0
        split at h
        · cases h
        · rename_i h255
          cases h
          have hlonger := width_digit h0 (Nat.le_of_not_lt h255)
          simp only [Octets.bound]
          omega
  · split at h
    · cases begun with
      | none => cases h
      | some octet =>
        simp only at h
        split at h
        · cases h
        · cases h
          have hle := width_le (some octet)
          have hnone : width none = 0 := rfl
          simp only [Octets.bound, List.length_append, List.length_singleton]
          omega
    · cases h

theorem foldlM_inetStep_bound {src : List UInt8} {o o' : Octets}
    (h : src.foldlM inetStep o = some o') : o.bound + src.length ≤ o'.bound := by
  induction src generalizing o with
  | nil =>
    cases h
    exact Nat.le_refl _
  | cons ch src ih =>
    rw [List.foldlM_cons] at h
    obtain ⟨o₁, hstep, hrest⟩ := Option.bind_eq_some_iff.1 h
    have h1 := inetStep_bound hstep
    have h2 := ih hrest
    rw [List.length_cons]
    omega

/-- **An address has at most 15 bytes.** -/
theorem length_of_inetPton {src : List UInt8} {a : Address} (h : inetPton src = some a) :
    (cstr src).length ≤ 15 := by
  obtain ⟨o, hfold, hend⟩ := Option.bind_eq_some_iff.1 h
  have hbound := foldlM_inetStep_bound hfold
  have ho : o.bound ≤ 15 := by
    obtain ⟨ended, begun⟩ := o
    unfold inetEnd at hend
    split at hend
    · rename_i a b c d hended hbegun
      have := width_le (some d)
      simp only at hended hbegun
      unfold Octets.bound
      simp only [hended, hbegun, List.length_cons, List.length_nil]
      omega
    · cases hend
  have h0 : Octets.bound { ended := [], begun := none } = 0 := rfl
  omega

/-! ### What is accepted is what is printed -/

/-- `inet_ntop(AF_INET, src, dst)` -/
def inetNtop (addr : Address) : List UInt8 :=
  decimal addr.a.toNat ++ [point] ++ decimal addr.b.toNat ++ [point] ++
    decimal addr.c.toNat ++ [point] ++ decimal addr.d.toNat

/-- The bytes that have been read, as `inet_ntop` writes them. -/
def Octets.text (o : Octets) : List UInt8 :=
  o.ended.flatMap (fun octet => decimal octet ++ [point]) ++
    o.begun.elim [] (fun octet => decimal octet)

/-- Each number is one of a byte. -/
structure Octets.Ok (o : Octets) : Prop where
  ended : ∀ octet ∈ o.ended, octet ≤ 255
  begun : ∀ octet ∈ o.begun, octet ≤ 255

theorem decimal_digit : ∀ digit < 10, decimal (digit : Nat) = [UInt8.ofNat (48 + digit)] := by
  decide

/-- One more digit at the end. -/
theorem decimal_append {n digit : Nat} (hn : 0 < n) (hdigit : digit < 10) :
    decimal (10 * n + digit : Nat) = decimal n ++ decimal digit := by
  rw [decimal_natCast, decimal_natCast, decimal_natCast,
    ← Nat.toDigits_append_toDigits (by decide) hn hdigit]
  exact List.map_append

theorem decimal_of_isDigit {ch : UInt8} (h : isDigit ch = true) :
    ch.toNat - 48 < 10 ∧ decimal (ch.toNat - 48 : Nat) = [ch] := by
  rw [isDigit, Bool.and_eq_true, decide_eq_true_iff, decide_eq_true_iff, UInt8.le_iff_toNat_le,
    UInt8.le_iff_toNat_le] at h
  have hlow : 48 ≤ ch.toNat := h.1
  have hhigh : ch.toNat ≤ 57 := h.2
  have hlt : ch.toNat - 48 < 10 := by omega
  refine ⟨hlt, ?_⟩
  rw [decimal_digit _ hlt, show 48 + (ch.toNat - 48) = ch.toNat by omega, UInt8.ofNat_toNat]

/-- A byte that is taken is the next one of the text. -/
theorem inetStep_text {o o' : Octets} {ch : UInt8} (ho : o.Ok) (h : inetStep o ch = some o') :
    o'.text = o.text ++ [ch] ∧ o'.Ok := by
  obtain ⟨ended, begun⟩ := o
  unfold inetStep at h
  split at h
  · rename_i hdigit
    obtain ⟨hlt, htext⟩ := decimal_of_isDigit hdigit
    cases begun with
    | none =>
      simp only at h
      split at h
      · cases h
      · cases h
        refine ⟨?_, ho.ended, fun octet hoctet => ?_⟩
        · simp only [Octets.text, Option.elim_some, Option.elim_none, List.append_nil, htext]
        · cases hoctet
          omega
    | some octet =>
      simp only at h
      split at h
      · cases h
      · rename_i h0
        split at h
        · cases h
        · rename_i h255
          cases h
          refine ⟨?_, ho.ended, fun octet' hoctet' => ?_⟩
          · simp only [Octets.text, Option.elim_some]
            rw [decimal_append (Nat.pos_of_ne_zero h0) hlt, htext, List.append_assoc]
          · cases hoctet'
            exact Nat.le_of_not_lt h255
  · split at h
    · rename_i hpoint
      cases begun with
      | none => cases h
      | some octet =>
        simp only at h
        split at h
        · cases h
        · cases h
          refine ⟨?_, fun octet' hoctet' => ?_, fun octet' hoctet' => (by cases hoctet')⟩
          · simp [Octets.text, hpoint]
          · rcases List.mem_append.1 hoctet' with hmem | hmem
            · exact ho.ended octet' hmem
            · rw [List.mem_singleton.1 hmem]
              exact ho.begun octet rfl
    · cases h

theorem foldlM_inetStep_text {src : List UInt8} {o o' : Octets} (ho : o.Ok)
    (h : src.foldlM inetStep o = some o') : o'.text = o.text ++ src ∧ o'.Ok := by
  induction src generalizing o with
  | nil =>
    cases h
    exact ⟨(List.append_nil _).symm, ho⟩
  | cons ch src ih =>
    rw [List.foldlM_cons] at h
    obtain ⟨o₁, hstep, hrest⟩ := Option.bind_eq_some_iff.1 h
    obtain ⟨htext, ho₁⟩ := inetStep_text ho hstep
    obtain ⟨htext', ho'⟩ := ih ho₁ hrest
    refine ⟨?_, ho'⟩
    rw [htext', htext, List.append_assoc]
    rfl

theorem inetEnd_text {o : Octets} {a : Address} (ho : o.Ok) (h : inetEnd o = some a) :
    o.text = inetNtop a := by
  obtain ⟨ended, begun⟩ := o
  unfold inetEnd at h
  split at h
  · rename_i a b c d hended hbegun
    simp only at hended hbegun
    subst hended hbegun
    cases h
    have hnat : ∀ n ≤ 255, (UInt8.ofNat n).toNat = n := by
      intro n hn
      rw [UInt8.toNat_ofNat']
      omega
    have ha := hnat a (ho.ended a (by simp))
    have hb := hnat b (ho.ended b (by simp))
    have hc := hnat c (ho.ended c (by simp))
    have hd := hnat d (ho.begun d rfl)
    simp only [inetNtop, ha, hb, hc, hd]
    simp [Octets.text]
  · cases h

/-- The digits of a number are read as this number. -/
theorem foldlM_decimal {ended : List Nat} (hended : ended.length < 4) (n : Nat) (hn : n ≤ 255) :
    (decimal n).foldlM inetStep { ended := ended, begun := none } =
      some { ended := ended, begun := some n } := by
  induction n using Nat.strong_induction_on with
  | _ n ih =>
    have hdigit : ∀ digit < 10, isDigit (UInt8.ofNat (48 + digit)) = true ∧
        (UInt8.ofNat (48 + digit)).toNat - 48 = digit := by decide
    by_cases h10 : n < 10
    · obtain ⟨his, hval⟩ := hdigit n h10
      rw [decimal_digit n h10]
      simp only [List.foldlM_cons, List.foldlM_nil, inetStep, his, if_true, hval,
        if_neg (Nat.not_le_of_lt hended)]
      rfl
    · obtain ⟨q, r, hr, hq, rfl⟩ : ∃ q r, r < 10 ∧ 0 < q ∧ n = 10 * q + r :=
        ⟨n / 10, n % 10, Nat.mod_lt _ (by decide), by omega, by omega⟩
      obtain ⟨his, hval⟩ := hdigit r hr
      rw [decimal_append hq hr, List.foldlM_append, ih q (by omega) (by omega),
        decimal_digit r hr]
      simp only [Option.bind_eq_bind, Option.bind_some, List.foldlM_cons, List.foldlM_nil,
        inetStep, his, if_true, hval, if_neg (Nat.ne_of_gt hq), if_neg (Nat.not_lt_of_le hn)]
      rfl

/-- A number and the point behind it. -/
theorem foldlM_octet {ended : List Nat} (hended : ended.length < 3) {n : Nat} (hn : n ≤ 255)
    (rest : List UInt8) :
    (decimal n ++ [point] ++ rest).foldlM inetStep { ended := ended, begun := none } =
      rest.foldlM inetStep { ended := ended ++ [n], begun := none } := by
  rw [List.append_assoc, List.foldlM_append, foldlM_decimal (by omega) n hn]
  have hpoint : isDigit point = false := by decide
  have hstep : inetStep { ended := ended, begun := some n } point =
      some { ended := ended ++ [n], begun := none } := by
    simp only [inetStep, hpoint, if_true, if_neg (show ¬ ended.length + 1 = 4 by omega)]
    rfl
  show ([point] ++ rest).foldlM inetStep { ended := ended, begun := some n } = _
  rw [List.singleton_append, List.foldlM_cons, hstep]
  rfl

theorem foldlM_inetNtop (a : Address) :
    (inetNtop a).foldlM inetStep { ended := [], begun := none } =
      some { ended := [a.a.toNat, a.b.toNat, a.c.toNat], begun := some a.d.toNat } := by
  have hle : ∀ x : UInt8, x.toNat ≤ 255 := fun x => Nat.le_of_lt_succ x.toNat_lt
  have hassoc : inetNtop a = decimal a.a.toNat ++ [point] ++ (decimal a.b.toNat ++ [point] ++
      (decimal a.c.toNat ++ [point] ++ decimal a.d.toNat)) := by
    simp [inetNtop]
  rw [hassoc, foldlM_octet (by decide) (hle _), foldlM_octet (by simp) (hle _),
    foldlM_octet (by simp) (hle _), foldlM_decimal (by simp) _ (hle _)]
  rfl

theorem mem_inetNtop {a : Address} {x : UInt8} (h : x ∈ inetNtop a) :
    isDigit x = true ∨ x = point := by
  have hdecimal : ∀ n : Nat, x ∈ decimal n → isDigit x = true := by
    intro n hx
    rw [decimal_natCast] at hx
    exact (toDigits_spec n).2.1 x hx
  simp only [inetNtop, List.mem_append, List.mem_singleton] at h
  rcases h with (((((h | h) | h) | h) | h) | h) | h
  all_goals first | exact Or.inl (hdecimal _ h) | exact Or.inr h

theorem zero_notMem_inetNtop (a : Address) : 0 ∉ inetNtop a := by
  intro h
  rcases mem_inetNtop h with h0 | h0
  · exact absurd h0 (by decide)
  · exact absurd h0 (by decide)

/-- **One text for each address.**  `inet_pton` accepts what `inet_ntop` prints, and nothing
else. -/
theorem inetPton_eq_some_iff {src : List UInt8} {a : Address} :
    inetPton src = some a ↔ cstr src = inetNtop a := by
  constructor
  · intro h
    obtain ⟨o, hfold, hend⟩ := Option.bind_eq_some_iff.1 h
    obtain ⟨htext, ho⟩ := foldlM_inetStep_text
      ⟨fun n hn => (by cases hn), fun n hn => (by cases hn)⟩ hfold
    rw [← inetEnd_text ho hend, htext]
    rfl
  · intro h
    rw [inetPton, h, foldlM_inetNtop]
    simp [inetEnd]

end Inet
