import EmbeddedLinux.Lib.CString
import Mathlib.Data.List.DropRight

/-!
# Strings in the kernel

The kernel has string functions of its own, and a table of character classes for Latin-1.

`CaseVariant v s` says that `s` is the lower-case word `v` in any case.  A driver that compares the
first bytes with a word finds it in a buffer that only begins with a variant (`strncasecmp_iff`);
whether the buffer is one, without the bytes of a class around it, is what `strip` and
`rdropWhile` tell.
-/

namespace KString

open CString

/-- `isupper` -/
def isUpper (c : UInt8) : Bool := (65 ≤ c && c ≤ 90) || (192 ≤ c && c ≤ 222 && c != 215)

/-- `tolower` -/
def toLower (c : UInt8) : UInt8 := if isUpper c then c + 32 else c

/-- `isspace`, which holds of the non-breaking space too. -/
def isSpace (c : UInt8) : Bool := (9 ≤ c && c ≤ 13) || c == 32 || c == 160

/-- `strncasecmp(a, b, n) == 0` -/
def strncasecmp (a b : List UInt8) (n : Nat) : Bool :=
  ((cstr a).take n).map toLower == ((cstr b).take n).map toLower

/-- The string that `strim` leaves in its array.  What it returns is the address behind the
spaces at the start, which stay. -/
def strim (s : List UInt8) : List UInt8 := (cstr s).rdropWhile isSpace

/-! ### Words in any case -/

variable {p : UInt8 → Bool} {s v w a b : List UInt8}

def CaseVariant (v s : List UInt8) : Prop := s.map toLower = v

instance (v s : List UInt8) : Decidable (CaseVariant v s) :=
  inferInstanceAs (Decidable (s.map toLower = v))

/-- What holds of 256 bytes holds of each. -/
theorem forall_byte {P : UInt8 → Prop} (h : ∀ i : Fin 256, P (UInt8.ofFin i)) (c : UInt8) : P c :=
  h c.toFin

theorem isSpace_toLower (c : UInt8) : isSpace (toLower c) = isSpace c :=
  @forall_byte (fun c => isSpace (toLower c) = isSpace c) (by decide +kernel) c

theorem CaseVariant.length (h : CaseVariant v s) : s.length = v.length := by
  rw [← show s.map toLower = v from h, List.length_map]

theorem CaseVariant.mem {c : UInt8} (h : CaseVariant v s) (hc : c ∈ s) : toLower c ∈ v := by
  rw [← show s.map toLower = v from h]
  exact List.mem_map_of_mem hc

theorem CaseVariant.zero_notMem (h : CaseVariant v s) (h0 : 0 ∉ v) : 0 ∉ s :=
  fun hmem => h0 (h.mem hmem)

theorem CaseVariant.not_space {c : UInt8} (h : CaseVariant v s)
    (hv : ∀ x ∈ v, isSpace x = false) (hc : c ∈ s) : isSpace c = false := by
  rw [← isSpace_toLower]
  exact hv _ (h.mem hc)

/-- `strncasecmp(s, v, strlen(v)) == 0` says what `s` begins with. -/
theorem strncasecmp_iff (h0 : 0 ∉ v) (hv : CaseVariant v v) :
    strncasecmp s v v.length = true ↔ ∃ w r, s = w ++ r ∧ CaseVariant v w := by
  unfold strncasecmp
  rw [cstr_of_zero_notMem h0, List.take_length, show v.map toLower = v from hv, beq_iff_eq]
  constructor
  · intro h
    obtain ⟨r, hs, -⟩ := cstr_eq_append (List.take_append_drop v.length (cstr s)).symm
    exact ⟨_, r, hs, h⟩
  · rintro ⟨w, r, rfl, hw⟩
    rw [cstr_append (hw.zero_notMem h0), List.take_left' hw.length]
    exact hw

/-! ### What stands around a word -/

/-- The string without the bytes of a class at both ends. -/
def strip (p : UInt8 → Bool) (s : List UInt8) : List UInt8 := (s.dropWhile p).rdropWhile p

/-- What is cut off at the end. -/
theorem rdropWhile_spec (p : UInt8 → Bool) (s : List UInt8) :
    ∃ b, s = s.rdropWhile p ++ b ∧ ∀ x ∈ b, p x = true :=
  ⟨s.rtakeWhile p, List.rdropWhile_append_rtakeWhile.symm, fun _ hx => List.mem_rtakeWhile_imp hx⟩

theorem rdropWhile_append (hw : ∀ x ∈ w, p x = false) (hb : ∀ x ∈ b, p x = true) :
    (w ++ b).rdropWhile p = w := by
  induction b using List.reverseRecOn with
  | nil =>
    rw [List.append_nil, List.rdropWhile_eq_self_iff]
    intro hne
    simp [hw _ (List.getLast_mem hne)]
  | append_singleton b x ih =>
    rw [← List.append_assoc, List.rdropWhile_concat_pos _ _ _ (hb x (by simp))]
    exact ih (fun y hy => hb y (List.mem_append_left _ hy))

/-- The bytes around a word. -/
theorem strip_append (hne : w ≠ []) (ha : ∀ x ∈ a, p x = true) (hw : ∀ x ∈ w, p x = false)
    (hb : ∀ x ∈ b, p x = true) : strip p (a ++ (w ++ b)) = w := by
  obtain ⟨x, w, rfl⟩ := List.exists_cons_of_ne_nil hne
  have hx : ¬ p x = true := by simp [hw x List.mem_cons_self]
  rw [strip, List.dropWhile_append_of_pos ha, List.cons_append, List.dropWhile_cons_of_neg hx,
    ← List.cons_append]
  exact rdropWhile_append hw hb

theorem strip_spec (p : UInt8 → Bool) (s : List UInt8) :
    ∃ a b, s = a ++ (strip p s ++ b) ∧ (∀ x ∈ a, p x = true) ∧ ∀ x ∈ b, p x = true := by
  obtain ⟨b, hb, hbp⟩ := rdropWhile_spec p (s.dropWhile p)
  refine ⟨s.takeWhile p, b, ?_, fun _ hx => List.mem_takeWhile_imp hx, hbp⟩
  rw [strip, ← hb, List.takeWhile_append_dropWhile]

end KString
