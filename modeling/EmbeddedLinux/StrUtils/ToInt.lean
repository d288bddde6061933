import EmbeddedLinux.Lib.Numeral

/-!
# Converting a string to a number

`str_to_int` takes what `strtol` has found if it goes up to the end of the string.  `strtol` finds
nothing in the empty string, and that goes up to its end too; and the value, which `strtol` has
already cut to a `long`, is cut to an `int`.

So the function accepts the texts of an `int` and, besides, the empty string and the texts of all
other numbers (`accepts_ints_iff`).
-/

namespace EmbeddedLinux.StrUtils

open CString Stdio

/-- `str_to_int`: what it returns, and `*out_num` after it.  `none` is a null pointer. -/
def strToInt (str : Option (List UInt8)) (outNum : Option Int) : Int × Option Int :=
  match str, outNum with
  | some str, some _ =>
    let r := strtol str
    -- `*endptr`, which is the NUL when nothing is left
    if r.2.headD 0 ≠ 0 then (0, outNum) else (1, some (wrapInt r.1))
  | _, _ => (0, outNum)

/-- The text of an `int`: white space, a sign or none, and digits up to the end. -/
def IntText (s : List UInt8) (v : Int) : Prop := NumeralAt s v [] ∧ IsInt v

/-- The function accepts the texts of an `int` and nothing else. -/
structure AcceptsInts (str : List UInt8) (x : Int) : Prop where
  accepted : ∀ v, IntText (cstr str) v → strToInt (some str) (some x) = (1, some v)
  refused : (∀ v, ¬ IntText (cstr str) v) → strToInt (some str) (some x) = (0, some x)

variable {str : List UInt8} {v x : Int}

/-- Only the empty string ends at once. -/
theorem headD_eq_zero {s : List UInt8} (h : 0 ∉ s) : s.headD 0 = 0 ↔ s = [] := by
  cases s with
  | nil => exact ⟨fun _ => rfl, fun _ => rfl⟩
  | cons c s =>
    constructor
    · intro hc
      exact absurd (hc ▸ List.mem_cons_self) h
    · intro hnil
      cases hnil

/-- A number up to the end of the string. -/
theorem strToInt_numeral (h : NumeralAt (cstr str) v []) :
    strToInt (some str) (some x) = (1, some (wrapInt (clampLong v))) := by
  rw [strToInt, strtol_of_numeralAt h]
  exact if_neg (not_not.2 rfl)

/-- The empty string. -/
theorem strToInt_empty (h : cstr str = []) : strToInt (some str) (some x) = (1, some 0) := by
  have hnone : ∀ v rest, ¬ NumeralAt (cstr str) v rest := by
    intro v rest hat
    rw [h, numeralAt_iff] at hat
    cases hat
  rw [strToInt, strtol_of_not hnone, h]
  rfl

/-- Any other string. -/
theorem strToInt_other (hne : cstr str ≠ []) (h : ∀ v, ¬ NumeralAt (cstr str) v []) :
    strToInt (some str) (some x) = (0, some x) := by
  rw [strToInt]
  apply if_pos
  by_cases hat : ∃ v rest, NumeralAt (cstr str) v rest
  · obtain ⟨v, rest, hat⟩ := hat
    rw [strtol_of_numeralAt hat, Ne, headD_eq_zero hat.zero_notMem]
    rintro rfl
    exact h v hat
  · rw [strtol_of_not (fun v rest hv => hat ⟨v, rest, hv⟩), Ne,
      headD_eq_zero (zero_notMem_cstr str)]
    exact hne

/-- The empty string is taken for 0. -/
theorem not_accepts_empty (h : cstr str = []) : ¬ AcceptsInts str x := by
  intro haccepts
  have hnone : ∀ v, ¬ IntText (cstr str) v := by
    rintro v ⟨hat, -⟩
    rw [h, numeralAt_iff] at hat
    cases hat
  have hret := haccepts.refused hnone
  rw [strToInt_empty h] at hret
  cases hret

/-- A number that is no `int` is taken for another one. -/
theorem not_accepts_large (h : NumeralAt (cstr str) v []) (hv : ¬ IsInt v) :
    ¬ AcceptsInts str x := by
  intro haccepts
  have hnone : ∀ w, ¬ IntText (cstr str) w := by
    rintro w ⟨hw, hint⟩
    rw [(hw.unique h).1] at hint
    exact hv hint
  have hret := haccepts.refused hnone
  rw [strToInt_numeral h] at hret
  cases hret

/-- **Which strings are judged right.** -/
theorem accepts_ints_iff (str : List UInt8) (x : Int) : AcceptsInts str x ↔
    cstr str ≠ [] ∧ ∀ v, NumeralAt (cstr str) v [] → IsInt v := by
  constructor
  · intro h
    refine ⟨fun hempty => not_accepts_empty hempty h, fun v hat => ?_⟩
    by_contra hv
    exact not_accepts_large hat hv h
  · rintro ⟨hne, hint⟩
    constructor
    · rintro v ⟨hat, hv⟩
      rw [strToInt_numeral hat, wrapInt_of_isInt hv]
    · intro hnone
      exact strToInt_other hne (fun v hat => hnone v ⟨hat, hint v hat⟩)

/-- The empty string, and 2 to the power of 32 and one more. -/
theorem empty_and_large : ¬ AcceptsInts [] 5 ∧ ¬ AcceptsInts (text "4294967297") 5 := by
  have hlarge : NumeralAt (cstr (text "4294967297")) 4294967297 [] := by
    rw [numeralAt_iff]
    decide +kernel
  exact ⟨not_accepts_empty rfl, not_accepts_large hlarge (fun h => absurd h.2 (by decide))⟩

end EmbeddedLinux.StrUtils
