import EmbeddedLinux.Lib.Words
import EmbeddedLinux.MgpioReg.Driver

/-!
# The commands of the register driver

`mgpio_write` looks at 15 bytes of the buffer, up to a NUL, and cuts the white space at their end.
The white space at their start stays, because the address that `strim` returns is not used.

`wholeCommand` is the command of the whole buffer.  The driver does what it says exactly when there
is no white space before the command, and when a word that has white space behind it as far as the
driver looks has nothing else behind it either (`whole_command_iff`).
-/

namespace EmbeddedLinux.MgpioReg

open CString KString

/-- The command that the whole buffer is, in lower case and without the white space around it. -/
def wholeCommand (data : List UInt8) : Option Bool :=
  if strip isSpace (data.map toLower) = text "on" then some true
  else if strip isSpace (data.map toLower) = text "off" then some false
  else none

/-- What a write of the buffer returns and leaves for a command. -/
def Outcome (data : List UInt8) (g : Gpio) (r : Int × Gpio) : Option Bool → Prop
  | some true => r.1 = data.length ∧ r.2 = gpio27On g
  | some false => r.1 = data.length ∧ r.2 = gpio27Off g
  | none => r.2 = g ∧ if data = [] then r.1 = 0 else r.1 < 0

/-- The driver does what the whole buffer says. -/
def DoesWhole (data : List UInt8) (g : Gpio) : Prop :=
  Outcome data g (mgpioWrite (.of data) g) (wholeCommand data)

def words : Words Bool where
  list := [(text "on", true), (text "off", false)]
  lower := by decide
  plain := by decide +kernel
  front := by decide

/-- The command is where the driver looks for it, and nothing else hides behind it. -/
structure Visible (data : List UInt8) : Prop where
  start : wholeCommand data ≠ none → ∀ c ∈ data.head?, isSpace c = false
  rest : ∀ w r, data = w ++ r → (CaseVariant (text "on") w ∨ CaseVariant (text "off") w) →
    (∀ c ∈ cstr (r.take (15 - w.length)), isSpace c = true) → ∀ c ∈ r, isSpace c = true

variable {data w r : List UInt8} {x y : Bool} {g : Gpio}

/-! ### Words -/

theorem strip_map_toLower (data : List UInt8) :
    strip isSpace (data.map toLower) = (strip isSpace data).map toLower := by
  have hclass : isSpace ∘ toLower = isSpace := funext isSpace_toLower
  rw [strip, strip, List.dropWhile_map, hclass, List.rdropWhile, List.rdropWhile,
    ← List.map_reverse, List.dropWhile_map, hclass, List.map_reverse]

theorem wholeCommand_iff : wholeCommand data = some x ↔ words.Says (strip isSpace data) x := by
  unfold wholeCommand
  rw [strip_map_toLower]
  exact Words.ite_says (W := words) rfl (by decide) Iff.rfl Iff.rfl

/-! ### What the driver looks at -/

theorem zero_notMem_map_toLower {s : List UInt8} (h : 0 ∉ s) : 0 ∉ s.map toLower := by
  intro hmem
  obtain ⟨c, hc, h0⟩ := List.mem_map.1 hmem
  have : c = 0 := @forall_byte (fun c => toLower c = 0 → c = 0) (by decide +kernel) c h0
  exact h (this ▸ hc)

/-- The comparison with a word, in lower case. -/
theorem strcmp_map_toLower {s v : List UInt8} (hs : 0 ∉ s) (hv : 0 ∉ v) :
    strcmp (s.map toLower) v = true ↔ CaseVariant v s := by
  rw [strcmp, cstr_of_zero_notMem (zero_notMem_map_toLower hs), cstr_of_zero_notMem hv, beq_iff_eq]
  rfl

theorem command_iff (kbuf : List UInt8) :
    command kbuf = some x ↔ words.Says ((cstr kbuf).rdropWhile isSpace) x := by
  have h0 : 0 ∉ strim kbuf := fun hmem =>
    zero_notMem_cstr kbuf ((List.rdropWhile_prefix isSpace _).subset hmem)
  exact Words.ite_says (W := words) rfl (by decide) (strcmp_map_toLower h0 (by decide))
    (strcmp_map_toLower h0 (by decide))

theorem copyFromUser_of {n : Nat} (h : n ≤ data.length) :
    copyFromUser (Call.of data).ubuf n = some (data.take n) := by
  induction n with
  | zero => rfl
  | succ n ih =>
    have hlast : (Call.of data).ubuf n = some data[n] := List.getElem?_eq_getElem h
    unfold copyFromUser at ih ⊢
    rw [List.range_succ, List.mapM_append, ih (Nat.le_of_succ_le h),
      List.take_succ_eq_append_getElem h]
    simp [hlast]

/-- The driver looks at the whole word. -/
theorem take_append_word (h : words.Says w x) :
    (w ++ r).take 15 = w ++ r.take (15 - w.length) := by
  have hlen : w.length ≤ 3 := h.length_le (by decide)
  rw [List.take_append, List.take_of_length_le (by omega)]

/-- **The command that a call carries out**: a word at the start, with white space behind it as far
as the driver looks. -/
theorem accepted_iff : (Call.of data).accepted = some x ↔
    ∃ w r, data = w ++ r ∧ words.Says w x ∧
      ∀ c ∈ cstr (r.take (15 - w.length)), isSpace c = true := by
  have hcopy : copyFromUser (Call.of data).ubuf (min data.length 15) = some (data.take 15) := by
    rw [copyFromUser_of (Nat.min_le_left _ _), take_min_length]
  show (copyFromUser (Call.of data).ubuf (min data.length 15)).bind _ = some x ↔ _
  rw [hcopy, Option.bind_some, command_iff, cstr_append_zero,
    Words.says_rdropWhile (fun _ hc => hc)]
  constructor
  · rintro ⟨w, b, hcstr, hw, hb⟩
    obtain ⟨b', htake, rfl⟩ := cstr_eq_append hcstr
    obtain ⟨r, rfl⟩ : w <+: data :=
      (htake ▸ List.prefix_append w b' : w <+: data.take 15).trans (List.take_prefix _ _)
    rw [take_append_word hw, List.append_cancel_left_eq] at htake
    exact ⟨w, r, rfl, hw, htake ▸ hb⟩
  · rintro ⟨w, r, rfl, hw, hr⟩
    refine ⟨w, cstr (r.take (15 - w.length)), ?_, hw, hr⟩
    rw [take_append_word hw, cstr_append hw.plain.2.1]

/-! ### The main result -/

/-- A call that finds no command fails, unless it has nothing to write. -/
theorem mgpioWrite_neg {c : Call} (hlen : c.len ≠ 0) (h : c.accepted = none) :
    (mgpioWrite c g).1 < 0 := by
  unfold Call.accepted at h
  have hn : ¬ min c.len (kbufSize - 1) = 0 := by
    simp only [kbufSize]
    omega
  rw [mgpioWrite, if_neg hn]
  cases hcopy : copyFromUser c.ubuf (min c.len (kbufSize - 1)) with
  | none => exact show efault < 0 by decide
  | some kbuf =>
    rw [hcopy, Option.bind_some] at h
    simp only [h]
    exact show einval < 0 by decide

/-- The outcome is that of the command the driver finds. -/
theorem outcome_accepted (data : List UInt8) (g : Gpio) :
    Outcome data g (mgpioWrite (.of data) g) (Call.of data).accepted := by
  have hspec := mgpioWrite_spec (.of data) g
  rcases hacc : (Call.of data).accepted with _ | _ | _
  · rw [hacc] at hspec
    refine ⟨hspec.2, ?_⟩
    split
    · subst data
      rfl
    · rename_i hne
      exact mgpioWrite_neg (fun h0 => hne (List.length_eq_zero_iff.1 h0)) hacc
  · rw [hacc] at hspec
    exact hspec
  · rw [hacc] at hspec
    exact hspec

/-- Each command has an outcome of its own. -/
theorem Outcome.unique {r : Int × Gpio} {z z' : Option Bool} (hne : data ≠ [])
    (h : Outcome data g r z) (h' : Outcome data g r z') : z = z' := by
  have hlen := List.length_pos_iff.2 hne
  have hpin : gpio27On g ≠ gpio27Off g := by
    intro hsame
    have hon := (drive_spec true g).2.2
    rw [show drive true g = drive false g from hsame, (drive_spec false g).2.2] at hon
    cases hon
  rcases z with _ | _ | _ <;> rcases z' with _ | _ | _ <;> simp only [Outcome, if_neg hne] at h h'
  · rfl
  · omega
  · omega
  · omega
  · rfl
  · exact absurd (h'.2.symm.trans h.2) hpin
  · omega
  · exact absurd (h.2.symm.trans h'.2) hpin
  · rfl

theorem doesWhole_iff : DoesWhole data g ↔ (Call.of data).accepted = wholeCommand data := by
  have hacc := outcome_accepted data g
  by_cases hne : data = []
  · subst hne
    exact ⟨fun _ => rfl, fun _ => hacc⟩
  · constructor
    · intro h
      exact hacc.unique hne h
    · intro h
      rw [h] at hacc
      exact hacc

/-- What the driver finds is the whole command. -/
theorem accepted_eq_iff : (Call.of data).accepted = wholeCommand data ↔ Visible data := by
  constructor
  · intro h
    refine ⟨fun hsome c hc => ?_, ?_⟩
    · obtain ⟨x, hx⟩ := Option.ne_none_iff_exists'.1 hsome
      obtain ⟨w, r, rfl, hw, -⟩ := accepted_iff.1 (h.trans hx)
      obtain ⟨hne, -, hspace⟩ := hw.plain
      obtain ⟨d, w, rfl⟩ := List.exists_cons_of_ne_nil hne
      rw [List.cons_append, List.head?_cons, Option.mem_some_iff] at hc
      exact hc ▸ hspace d List.mem_cons_self
    · rintro w r rfl hw hr
      obtain ⟨x, hx⟩ := (Words.exists_says_two (W := words) rfl).2 hw
      have hwhole := h.symm.trans (accepted_iff.2 ⟨w, r, rfl, hx, hr⟩)
      have hbegins : words.Begins (w ++ r) x := ⟨w, r, rfl, hx⟩
      obtain ⟨-, w', b, hsplit, hx', hb⟩ :=
        hbegins.of_strip (fun _ hc => hc) (wholeCommand_iff.1 hwhole)
      obtain ⟨rfl, -⟩ := Words.unique hsplit hx hx'
      rw [List.append_cancel_left_eq] at hsplit
      rw [hsplit]
      exact hb
  · rintro ⟨hstart, hrest⟩
    cases hwhole : wholeCommand data with
    | none =>
      rw [Option.eq_none_iff_forall_ne_some]
      intro x hx
      obtain ⟨w, r, rfl, hw, hr⟩ := accepted_iff.1 hx
      have hblank := hrest w r rfl ((Words.exists_says_two (W := words) rfl).1 ⟨x, hw⟩) hr
      have hsays : words.Says (strip isSpace (w ++ r)) x :=
        (Words.says_strip (fun _ hc => hc)).2 ⟨[], w, r, rfl, hw, by simp, hblank⟩
      rw [wholeCommand_iff.2 hsays] at hwhole
      cases hwhole
    | some x =>
      obtain ⟨a, w, b, rfl, hw, ha, hb⟩ :=
        (Words.says_strip (fun _ hc => hc)).1 (wholeCommand_iff.1 hwhole)
      rcases a with _ | ⟨c, a⟩
      · refine accepted_iff.2 ⟨w, b, rfl, hw, fun c hc => hb c ?_⟩
        exact List.mem_of_mem_take ((List.takeWhile_prefix _).subset hc)
      · have hspace := ha c List.mem_cons_self
        rw [hstart (by rw [hwhole]; simp) c rfl] at hspace
        cases hspace

/-- **Which buffers the driver judges as a whole.** -/
theorem whole_command_iff (data : List UInt8) (g : Gpio) : DoesWhole data g ↔ Visible data :=
  doesWhole_iff.trans accepted_eq_iff

/-- White space before the command, and text too far behind it. -/
theorem blank_on : ¬ DoesWhole (text " on") bareBoard.gpio ∧
    ¬ DoesWhole (text "on              off") bareBoard.gpio := by
  rw [doesWhole_iff, doesWhole_iff]
  decide +kernel

end EmbeddedLinux.MgpioReg
