import EmbeddedLinux.StrUtils.ToInt
import EmbeddedLinux.StrUtils.Trim

/-!
# The string functions one after the other

`strtol` skips white space before a number but not behind it.  With `str_trim` before it,
`str_to_int` takes a number with white space on both sides, and a string of white space alone is
taken for 0 like the empty string.  And trimming and reversing can be exchanged
(`trim_then_convert`).
-/

namespace EmbeddedLinux.StrUtils

open CString Stdio

variable {s w w' num : List UInt8} {v : Int}

/-- A number with white space around it. -/
def IntInput (s : List UInt8) (v : Int) : Prop :=
  ∃ ws num ws', s = ws ++ (num ++ ws') ∧ Blanks ws ∧ Blanks ws' ∧ Numeral num v

/-! ### Trimming and the other functions -/

/-- A string is trimmed in one way only. -/
theorem Trimmed.unique (h : Trimmed s w) (h' : Trimmed s w') : w = w' :=
  h.eq_strip.trans h'.eq_strip.symm

theorem Trimmed.reverse (h : Trimmed s w) : Trimmed s.reverse w.reverse := by
  obtain ⟨a, b, rfl, ha, hb, hhead, hlast⟩ := h
  refine ⟨b.reverse, a.reverse, by simp, fun x hx => hb x (List.mem_reverse.1 hx),
    fun x hx => ha x (List.mem_reverse.1 hx), ?_, ?_⟩
  · rwa [List.head?_reverse]
  · rwa [List.getLast?_reverse]

/-- A number neither begins nor ends with white space. -/
theorem numeral_ends (h : Numeral num v) :
    (∀ x ∈ num.head?, isSpace x = false) ∧ ∀ x ∈ num.getLast?, isSpace x = false := by
  obtain ⟨sign, neg, ds, rfl, hne, hds, -, -, hhead⟩ := h.cases
  refine ⟨fun x hx => (hhead x hx).1, fun x hx => ?_⟩
  rw [List.getLast?_append_of_ne_nil _ hne] at hx
  exact (isDigit_spec (hds x (List.mem_of_getLast? hx))).1

theorem intInput_trimmed (h : Trimmed s w) : IntInput s v ↔ Numeral w v := by
  constructor
  · intro hs
    obtain ⟨ws, num, ws', rfl, hws, hws', hnum⟩ := hs
    have hnumTrimmed : Trimmed (ws ++ (num ++ ws')) num :=
      ⟨ws, ws', rfl, hws, hws', numeral_ends hnum⟩
    rw [h.unique hnumTrimmed]
    exact hnum
  · intro hw
    obtain ⟨a, b, rfl, ha, hb, -⟩ := h
    exact ⟨a, w, b, rfl, ha, hb, hw⟩

theorem blanks_trimmed (h : Trimmed s w) : Blanks s ↔ w = [] := by
  constructor
  · intro hs
    have hnil : Trimmed s [] := ⟨s, [], by simp, hs, by simp [Blanks], by simp, by simp⟩
    exact h.unique hnil
  · intro hw
    obtain ⟨a, b, rfl, ha, hb, -⟩ := h
    subst hw
    intro x hx
    rcases List.mem_append.1 hx with hx | hx
    · exact ha x hx
    · exact hb x hx

/-- What `strtol` finds up to the end of a string that begins with no white space. -/
theorem numeralAt_trimmed (hhead : ∀ x ∈ w.head?, isSpace x = false) :
    NumeralAt w v [] ↔ Numeral w v := by
  constructor
  · intro h
    obtain ⟨ws, num, rfl, hws, hnum, -⟩ := h
    cases ws with
    | nil =>
      rw [List.nil_append, List.append_nil]
      exact hnum
    | cons x ws =>
      have hspace := hws x List.mem_cons_self
      rw [hhead x rfl] at hspace
      cases hspace
  · exact Numeral.numeralAt

/-- **The number of a trimmed string.** -/
theorem strToInt_trimmed (h : Trimmed s w) {b : List UInt8} (hb : cstr b = w) (x : Int) :
    (∀ v, IntInput s v → strToInt (some b) (some x) = (1, some (wrapInt (clampLong v)))) ∧
      (Blanks s → strToInt (some b) (some x) = (1, some 0)) ∧
      (¬ Blanks s → (∀ v, ¬ IntInput s v) → strToInt (some b) (some x) = (0, some x)) := by
  have hhead : ∀ x ∈ w.head?, isSpace x = false := by
    obtain ⟨-, -, -, -, -, hhead, -⟩ := h
    exact hhead
  refine ⟨fun v hv => ?_, fun hs => ?_, fun hs hnone => ?_⟩
  · apply strToInt_numeral
    rw [hb, numeralAt_trimmed hhead]
    exact (intInput_trimmed h).1 hv
  · apply strToInt_empty
    rw [hb]
    exact (blanks_trimmed h).1 hs
  · apply strToInt_other
    · rw [hb]
      exact fun hw => hs ((blanks_trimmed h).2 hw)
    · intro v hv
      rw [hb, numeralAt_trimmed hhead] at hv
      exact hnone v ((intInput_trimmed h).2 hv)

/-! ### The main result -/

/-- **One function after the other.**  On a trimmed string `str_to_int` takes a number with white
space around it, and white space alone for 0, and nothing else.  A string that is reversed and then
trimmed is the same as one that is trimmed and then reversed. -/
theorem trim_then_convert (s r : List UInt8) (h0 : 0 ∉ s) (hlen : s.length < 2147483647) :
    ∃ m, strTrim (some (s ++ 0 :: r)) = some (some m) ∧
      (∀ x, (∀ v, IntInput s v →
          strToInt (some m.data) (some x) = (1, some (wrapInt (clampLong v)))) ∧
        (Blanks s → strToInt (some m.data) (some x) = (1, some 0)) ∧
        (¬ Blanks s → (∀ v, ¬ IntInput s v) →
          strToInt (some m.data) (some x) = (0, some x))) ∧
      ∃ m₁ m₂ m₃, strReverse (some (s ++ 0 :: r)) = some (some m₁) ∧
        strTrim (some m₁.data) = some (some m₂) ∧ strReverse (some m.data) = some (some m₃) ∧
        cstr m₂.data = cstr m₃.data := by
  obtain ⟨m, w, hm, hw, hdata, -⟩ := runs_trim r h0 hlen
  have h0w : 0 ∉ w := fun h => h0 (hw.sublist.subset h)
  have hcstr : cstr m.data = w := by
    rw [hdata, cstr_append_zero, cstr_of_zero_notMem h0w]
  refine ⟨m, hm, fun x => strToInt_trimmed hw hcstr x, ?_⟩
  obtain ⟨m₁, hm₁, hdata₁, -⟩ := runs_reverse (r := r) h0 (Nat.le_of_lt hlen)
  have h0s : 0 ∉ s.reverse := by simpa using h0
  obtain ⟨m₂, w₂, hm₂, hw₂, hdata₂, -⟩ := runs_trim r h0s (by rwa [List.length_reverse])
  have hwlen : w.length ≤ 2147483647 := (hw.sublist.length_le.trans_lt hlen).le
  obtain ⟨m₃, hm₃, hdata₃, -⟩ :=
    runs_reverse (r := (s ++ 0 :: r).drop (w.length + 1)) h0w hwlen
  obtain rfl := hw₂.unique hw.reverse
  refine ⟨m₁, m₂, m₃, hm₁, by rw [hdata₁, hm₂], by rw [hdata, hm₃], ?_⟩
  rw [hdata₂, hdata₃, cstr_append_zero, cstr_append_zero]

/-- A number in the middle. -/
theorem trim_then_convert_42 : ∃ m, strTrim (some (text " +42 " ++ 0 :: [])) = some (some m) ∧
    strToInt (some m.data) (some 7) = (1, some 42) := by
  obtain ⟨m, hm, hconvert, -⟩ := trim_then_convert (text " +42 ") [] (by decide) (by decide)
  have hblank : Blanks (text " ") := List.all_eq_true.1 (by decide)
  have hdigits : ∀ x ∈ text "42", isDigit x = true := List.all_eq_true.1 (by decide)
  have hinput : IntInput (text " +42 ") 42 :=
    ⟨text " ", text "+42", text " ", rfl, hblank, hblank, false, text "42", rfl, by decide, hdigits,
      rfl⟩
  exact ⟨m, hm, (hconvert 7).1 42 hinput⟩

end EmbeddedLinux.StrUtils
