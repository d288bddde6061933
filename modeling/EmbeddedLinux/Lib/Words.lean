import EmbeddedLinux.Lib.KString

/-!
# The words that a driver knows

`Words` is a list of lower-case words, each with what it stands for.  None is the front of another,
and none has white space in it.

A buffer can be a word in any case (`Says`) or begin with one (`Begins`), and begins with one
only (`Words.unique`).  A driver that trims the buffer looks for a word with white space around it
(`says_strip`, `says_rdropWhile`), and one that compares the first bytes only for a buffer that
begins with a word (`either_iff`).
-/

namespace KString

open CString

structure Words (β : Type*) where
  list : List (List UInt8 × β)
  lower : ∀ v ∈ list, CaseVariant v.1 v.1
  plain : ∀ v ∈ list, v.1 ≠ [] ∧ 0 ∉ v.1 ∧ ∀ c ∈ v.1, isSpace c = false
  front : ∀ v ∈ list, ∀ u ∈ list, v.1 <+: u.1 → v = u

namespace Words

variable {β : Type*} {W : Words β} {p : UInt8 → Bool} {s w w' r r' v u : List UInt8} {x y : β}

/-- The buffer is a word for `x`. -/
def Says (W : Words β) (w : List UInt8) (x : β) : Prop := ∃ v, (v, x) ∈ W.list ∧ CaseVariant v w

/-- The buffer begins with a word for `x`. -/
def Begins (W : Words β) (s : List UInt8) (x : β) : Prop := ∃ w r, s = w ++ r ∧ W.Says w x

theorem Says.plain (h : W.Says w x) : w ≠ [] ∧ 0 ∉ w ∧ ∀ c ∈ w, isSpace c = false := by
  obtain ⟨v, hv, hvar⟩ := h
  obtain ⟨hne, h0, hspace⟩ := W.plain _ hv
  refine ⟨?_, hvar.zero_notMem h0, fun c => hvar.not_space hspace⟩
  rintro rfl
  exact hne hvar.symm

theorem Says.length_le {n : Nat} (h : W.Says w x) (hn : ∀ v ∈ W.list, v.1.length ≤ n) :
    w.length ≤ n := by
  obtain ⟨v, hv, hvar⟩ := h
  rw [hvar.length]
  exact hn _ hv

/-- A word has no white space of any kind in it. -/
theorem Says.notMem (h : W.Says w x) (hp : ∀ c, p c = true → isSpace c = true) :
    ∀ c ∈ w, p c = false := by
  intro c hc
  rw [Bool.eq_false_iff]
  intro hpc
  exact absurd (hp c hpc) (by simp [h.plain.2.2 c hc])

/-- A buffer begins with one word only. -/
theorem unique (h : w ++ r = w' ++ r') (hw : W.Says w x) (hw' : W.Says w' y) :
    w = w' ∧ x = y := by
  obtain ⟨v, hv, hvar⟩ := hw
  obtain ⟨u, hu, huar⟩ := hw'
  have hmap := congrArg (List.map toLower) h
  rw [List.map_append, List.map_append, show w.map toLower = v from hvar,
    show w'.map toLower = u from huar] at hmap
  have hvu : (v, x) = (u, y) := by
    rcases List.prefix_or_prefix_of_prefix (List.prefix_append v _)
      (hmap ▸ List.prefix_append u _) with hpre | hpre
    · exact W.front _ hv _ hu hpre
    · exact (W.front _ hu _ hv hpre).symm
  obtain ⟨rfl, rfl⟩ := Prod.mk.inj hvu
  exact ⟨(List.append_inj h (hvar.length.trans huar.length.symm)).1, rfl⟩

theorem Begins.unique (h : W.Begins s x) (h' : W.Begins s y) : x = y := by
  obtain ⟨w, r, rfl, hw⟩ := h
  obtain ⟨w', r', hs, hw'⟩ := h'
  exact (Words.unique hs hw hw').2

/-! ### What is not a word -/

theorem not_begins_nil (x : β) : ¬ W.Begins [] x := by
  rintro ⟨w, r, hs, hw⟩
  exact hw.plain.1 (List.append_eq_nil_iff.1 hs.symm).1

/-- White space is not the start of a word. -/
theorem not_begins_space {c : UInt8} (hc : isSpace c = true) (x : β) : ¬ W.Begins (c :: r) x := by
  rintro ⟨w, r', hs, hw⟩
  obtain ⟨hne, -, hspace⟩ := hw.plain
  obtain ⟨d, w, rfl⟩ := List.exists_cons_of_ne_nil hne
  obtain ⟨rfl, -⟩ := List.cons.inj hs
  rw [hspace _ List.mem_cons_self] at hc
  cases hc

theorem not_begins_blank (hb : ∀ c ∈ r, isSpace c = true) (x : β) : ¬ W.Begins r x := by
  rcases r with _ | ⟨c, r⟩
  · exact not_begins_nil x
  · exact not_begins_space (hb c List.mem_cons_self) x

/-- What stands behind a NUL is not looked at. -/
theorem begins_cstr : W.Begins (cstr s) x ↔ W.Begins s x := by
  constructor
  · rintro ⟨w, r, hs, hw⟩
    obtain ⟨r', rfl, -⟩ := cstr_eq_append hs
    exact ⟨w, r', rfl, hw⟩
  · rintro ⟨w, r, rfl, hw⟩
    exact ⟨w, cstr r, cstr_append hw.plain.2.1, hw⟩

/-- A part from the start on that is long enough for every word. -/
theorem begins_take {n : Nat} (hn : ∀ v ∈ W.list, v.1.length ≤ n) :
    W.Begins (s.take n) x ↔ W.Begins s x := by
  constructor
  · rintro ⟨w, r, hs, hw⟩
    refine ⟨w, r ++ s.drop n, ?_, hw⟩
    rw [← List.append_assoc, ← hs, List.take_append_drop]
  · rintro ⟨w, r, rfl, hw⟩
    refine ⟨w, r.take (n - w.length), ?_, hw⟩
    rw [List.take_append, List.take_of_length_le (hw.length_le hn)]

/-- The white space at the end is not part of a word. -/
theorem begins_rdropWhile (hp : ∀ c, p c = true → isSpace c = true) :
    W.Begins (s.rdropWhile p) x ↔ W.Begins s x := by
  obtain ⟨b, hs, hb⟩ := rdropWhile_spec p s
  constructor
  · rintro ⟨w, r, hdrop, hw⟩
    refine ⟨w, r ++ b, ?_, hw⟩
    rw [← List.append_assoc, ← hdrop]
    exact hs
  · rintro ⟨w, r, hsplit, hw⟩
    rw [hsplit] at hs
    rcases List.append_eq_append_iff.1 hs with ⟨t, hdrop, -⟩ | ⟨t, hdrop, ht⟩
    · exact ⟨w, t, hsplit ▸ hdrop, hw⟩
    · have hnil : t = [] := by
        rw [List.eq_nil_iff_forall_not_mem]
        intro c hc
        have hspace := hw.notMem hp c (hdrop ▸ List.mem_append_right _ hc)
        rw [hb c (ht ▸ List.mem_append_left _ hc)] at hspace
        cases hspace
      rw [hnil, List.append_nil] at hdrop
      exact ⟨w, [], by rw [List.append_nil, hsplit]; exact hdrop.symm, hw⟩

/-! ### White space around a word -/

/-- A word with white space around it. -/
theorem says_strip (hp : ∀ c, p c = true → isSpace c = true) : W.Says (strip p s) x ↔
    ∃ a w b, s = a ++ (w ++ b) ∧ W.Says w x ∧ (∀ c ∈ a, p c = true) ∧ ∀ c ∈ b, p c = true := by
  constructor
  · intro h
    obtain ⟨a, b, hs, ha, hb⟩ := strip_spec p s
    exact ⟨a, _, b, hs, h, ha, hb⟩
  · rintro ⟨a, w, b, rfl, hw, ha, hb⟩
    rw [strip_append hw.plain.1 ha (hw.notMem hp) hb]
    exact hw

/-- A word with white space behind it. -/
theorem says_rdropWhile (hp : ∀ c, p c = true → isSpace c = true) : W.Says (s.rdropWhile p) x ↔
    ∃ w b, s = w ++ b ∧ W.Says w x ∧ ∀ c ∈ b, p c = true := by
  constructor
  · intro h
    obtain ⟨b, hs, hb⟩ := rdropWhile_spec p s
    exact ⟨_, b, hs, h, hb⟩
  · rintro ⟨w, b, rfl, hw, hb⟩
    rw [rdropWhile_append (hw.notMem hp) hb]
    exact hw

/-- A buffer that begins with a word and is one as a whole has white space behind it only. -/
theorem Begins.of_strip (h : W.Begins s x) (hp : ∀ c, p c = true → isSpace c = true)
    (hw : W.Says (strip p s) y) :
    x = y ∧ ∃ w b, s = w ++ b ∧ W.Says w y ∧ ∀ c ∈ b, p c = true := by
  obtain ⟨a, w, b, rfl, hsays, ha, hb⟩ := (says_strip hp).1 hw
  rcases a with _ | ⟨c, a⟩
  · exact ⟨h.unique ⟨w, b, rfl, hsays⟩, w, b, rfl, hsays, hb⟩
  · exact absurd h (not_begins_space (hp c (ha c List.mem_cons_self)) x)

/-! ### Two words -/

theorem says_two (hlist : W.list = [(v, x), (u, y)]) {z : β} :
    W.Says w z ↔ CaseVariant v w ∧ z = x ∨ CaseVariant u w ∧ z = y := by
  unfold Says
  rw [hlist]
  constructor
  · rintro ⟨t, hmem, ht⟩
    simp only [List.mem_cons, Prod.mk.injEq, List.not_mem_nil, or_false] at hmem
    rcases hmem with ⟨rfl, hz⟩ | ⟨rfl, hz⟩
    · exact Or.inl ⟨ht, hz⟩
    · exact Or.inr ⟨ht, hz⟩
  · rintro (⟨ht, rfl⟩ | ⟨ht, rfl⟩)
    · exact ⟨v, by simp, ht⟩
    · exact ⟨u, by simp, ht⟩

theorem exists_says_two (hlist : W.list = [(v, x), (u, y)]) :
    (∃ z, W.Says w z) ↔ CaseVariant v w ∨ CaseVariant u w := by
  simp only [says_two hlist]
  constructor
  · rintro ⟨z, ⟨hv, -⟩ | ⟨hu, -⟩⟩
    · exact Or.inl hv
    · exact Or.inr hu
  · rintro (hv | hu)
    · exact ⟨x, Or.inl ⟨hv, rfl⟩⟩
    · exact ⟨y, Or.inr ⟨hu, rfl⟩⟩

/-- A driver that compares with the one word and then with the other. -/
theorem ite_says {P Q : Prop} [Decidable P] [Decidable Q] (hlist : W.list = [(v, x), (u, y)])
    (hne : v ≠ u) (hp : P ↔ CaseVariant v w) (hq : Q ↔ CaseVariant u w) {z : β} :
    (if P then some x else if Q then some y else none) = some z ↔ W.Says w z := by
  rw [says_two hlist, ← hp, ← hq]
  constructor
  · intro h
    split at h
    · exact Or.inl ⟨‹_›, (Option.some_inj.1 h).symm⟩
    · split at h
      · exact Or.inr ⟨‹_›, (Option.some_inj.1 h).symm⟩
      · cases h
  · rintro (⟨h, rfl⟩ | ⟨h, rfl⟩)
    · rw [if_pos h]
    · rw [if_neg (fun h' => hne ((hp.1 h').symm.trans (hq.1 h))), if_pos h]

/-! ### Tests on the first bytes -/

/-- `strncasecmp` finds a word at the front. -/
theorem strncasecmp_word (hv : (v, x) ∈ W.list) (s : List UInt8) :
    strncasecmp s v v.length = true ↔ ∃ w r, s = w ++ r ∧ CaseVariant v w :=
  strncasecmp_iff (W.plain _ hv).2.1 (W.lower _ hv)

/-- One test finds the only word for a value. -/
theorem test_iff {b : Bool} (hv : b = true ↔ ∃ w r, s = w ++ r ∧ CaseVariant v w)
    (hlist : ∀ t, (t, x) ∈ W.list ↔ t = v) : b = true ↔ W.Begins s x := by
  rw [hv]
  constructor
  · rintro ⟨w, r, hs, hw⟩
    exact ⟨w, r, hs, v, (hlist v).2 rfl, hw⟩
  · rintro ⟨w, r, hs, t, ht, hw⟩
    rw [(hlist t).1 ht] at hw
    exact ⟨w, r, hs, hw⟩

/-- Two tests find the two words for a value. -/
theorem either_iff {b c : Bool} (hv : b = true ↔ ∃ w r, s = w ++ r ∧ CaseVariant v w)
    (hu : c = true ↔ ∃ w r, s = w ++ r ∧ CaseVariant u w)
    (hlist : ∀ t, (t, x) ∈ W.list ↔ t = v ∨ t = u) : (b || c) = true ↔ W.Begins s x := by
  rw [Bool.or_eq_true, hv, hu]
  constructor
  · rintro (⟨w, r, hs, hw⟩ | ⟨w, r, hs, hw⟩)
    · exact ⟨w, r, hs, v, (hlist v).2 (Or.inl rfl), hw⟩
    · exact ⟨w, r, hs, u, (hlist u).2 (Or.inr rfl), hw⟩
  · rintro ⟨w, r, hs, t, ht, hw⟩
    rcases (hlist t).1 ht with rfl | rfl
    · exact Or.inl ⟨w, r, hs, hw⟩
    · exact Or.inr ⟨w, r, hs, hw⟩

/-- A driver that knows two values, and tests for the one and then for the other. -/
theorem ite_iff {P Q : Prop} [Decidable P] [Decidable Q] (hp : P ↔ W.Begins s x)
    (hq : Q ↔ W.Begins s y) (hne : x ≠ y) (hlist : ∀ v ∈ W.list, v.2 = x ∨ v.2 = y) (z : β) :
    (if P then some x else if Q then some y else none) = some z ↔ W.Begins s z := by
  constructor
  · intro h
    split at h
    · cases h
      exact hp.1 ‹_›
    · split at h
      · cases h
        exact hq.1 ‹_›
      · cases h
  · intro h
    have hz : z = x ∨ z = y := by
      obtain ⟨w, r, -, v, hv, -⟩ := h
      exact hlist _ hv
    rcases hz with rfl | rfl
    · rw [if_pos (hp.2 h)]
    · rw [if_neg (fun htest => hne ((hp.1 htest).unique h)), if_pos (hq.2 h)]

end Words

end KString
