import EmbeddedLinux.Lib.Resubmit
import EmbeddedLinux.Lib.Words
import EmbeddedLinux.MgpioDesc.Shadow

/-!
# A long buffer written to the descriptor driver

`mgpio_write` takes at most 7 bytes and returns how many it has taken, and it looks only at what
`kbuf` begins with.  A program that wants its whole buffer written calls it again with the tail,
and the tail is judged as a buffer of its own: "on     off" drives the pin twice.

`whole` is the command of a buffer without the white space around it.  The calls together do what it
says exactly when the buffer is not empty, and begins with a word only when it is a command as a
whole, with no white space before that (`judged_whole_iff`).
-/

namespace EmbeddedLinux.MgpioDesc

open CString KString Resubmit Interference Transition

/-- The pin and `mdev->state`, with the values that the pin has been driven to. -/
structure Pin where
  level : Int
  state : Int
  driven : List Int
  deriving DecidableEq

/-- `mgpio_write` on a buffer that can be read: what it returns, and the pin after it. -/
def mgpioWrite (data : List UInt8) (m : Pin) : Int × Pin :=
  if data.length = 0 then (0, m)
  else
    let len := min data.length (kbufSize - 1)
    match parse (fillKbuf (data.take len)) with
    | some x => (len, { level := x, state := x, driven := m.driven ++ [x] })
    | none => (einval, m)

/-- What a process does in a call that no other process disturbs. -/
theorem write_solo {T : Type*} (t : T) (data : List UInt8) (m : Device T) (ret : Int)
    (driven : List Int) (hlock : m.lock = none) (hdriven : m.driven = false) :
    ∃ es, solo fileStep t es m (.returned ret) =
      let r := mgpioWrite data { level := m.level, state := m.state, driven := driven }
      some ({ m with level := r.2.level, state := r.2.state }, .returned r.1) := by
  by_cases hlen : data.length = 0
  · refine ⟨[.write data.length], ?_⟩
    simp [solo, fileStep, mgpioWrite, hlen]
  · refine ⟨.write data.length :: .data (data.take (min data.length 7)) ::
      (match parse (fillKbuf (data.take (min data.length 7))) with
      | some _ => [.ok, .ok, .ok, .ok]
      | none => []), ?_⟩
    cases h : parse (fillKbuf (data.take (min data.length 7))) with
    | none => simp [solo, fileStep, mgpioWrite, hlen, h]
    | some x =>
      obtain ⟨level, state, lock, busy⟩ := m
      obtain rfl : lock = none := hlock
      obtain rfl : busy = false := hdriven
      simp [solo, fileStep, mgpioWrite, hlen, h]

/-- A program that writes all of its buffer, and that no other process disturbs. -/
theorem resubmit_alone {T : Type*} [DecidableEq T] {s : Interference.State T (Device T) Pc} {t : T}
    {ret : Int} (hpc : s.pc t = .returned ret) (hlock : s.mem.lock = none)
    (hdriven : s.mem.driven = false) {fuel : Nat} {data : List UInt8} {driven : List Int}
    {r : Int × Pin}
    (hr : resubmit mgpioWrite fuel data ⟨s.mem.level, s.mem.state, driven⟩ = some r) :
    Reachable (next fileStep) Any s
      (s.move t { s.mem with level := r.2.level, state := r.2.state } (.returned r.1)) := by
  -- between two calls the process has returned, and the device is as the pin says
  have hcall : ∀ (rest : List UInt8) (m : Pin), (∃ ret, Reachable (next fileStep) Any s
      (s.move t { s.mem with level := m.level, state := m.state } (.returned ret))) →
      Reachable (next fileStep) Any s (s.move t
        { s.mem with level := (mgpioWrite rest m).2.level, state := (mgpioWrite rest m).2.state }
        (.returned (mgpioWrite rest m).1)) := by
    rintro rest m ⟨ret, hreach⟩
    obtain ⟨es, hes⟩ := write_solo t rest { s.mem with level := m.level, state := m.state } ret
      m.driven hlock hdriven
    obtain ⟨as, hrun⟩ := reachable_solo (s := s.move t _ (.returned ret))
      (by rw [State.move_self]; exact hes)
    rw [State.move_move] at hrun
    exact hreach.run hrun
  refine resubmit_rule (P := fun _ m => ∃ ret, Reachable (next fileStep) Any s
      (s.move t { s.mem with level := m.level, state := m.state } (.returned ret)))
    (Q := fun r => Reachable (next fileStep) Any s
      (s.move t { s.mem with level := r.2.level, state := r.2.state } (.returned r.1)))
    (fun rest m h _ => hcall rest m h) (fun rest m h _ _ => ⟨_, hcall rest m h⟩) ⟨ret, ?_⟩ hr
  have hsame := State.move_same s t
  rw [hpc] at hsame
  rw [hsame]
  exact .refl s

/-! ### What the buffer says -/

/-- The level that a word asks for. -/
def wordLevel (w : List UInt8) : Option Int :=
  if w = text "1" ∨ CaseVariant (text "on") w then some 1
  else if w = text "0" ∨ CaseVariant (text "off") w then some 0
  else none

/-- The level that the buffer asks for as a whole. -/
def whole (data : List UInt8) : Option Int := wordLevel (strip isSpace data)

/-- The level of a word that the buffer begins with. -/
def BeginsWith (data : List UInt8) (x : Int) : Prop :=
  ∃ w r, data = w ++ r ∧ wordLevel w = some x

/-- The words in lower case. -/
def words : Words Int where
  list := [(text "1", 1), (text "on", 1), (text "0", 0), (text "off", 0)]
  lower := by decide
  plain := by decide +kernel
  front := by decide

/-- The buffer has been judged as a whole when the program that writes it has its answer. -/
structure JudgedWhole (data : List UInt8) (m : Pin) (r : Int × Pin) : Prop where
  once : r.2.driven.length ≤ 1
  driven : ∀ x, x ∈ r.2.driven ↔ whole data = some x
  other : whole data = none → r.1 = einval ∧ r.2.level = m.level ∧ r.2.state = m.state

variable {data w v : List UInt8} {x y : Int} {m : Pin}

/-! ### Words -/

/-- A digit has no case. -/
theorem caseVariant_digit (c : UInt8) (hc : isUpper c = false)
    (hback : ∀ d : UInt8, toLower d = c → d = c) : CaseVariant [c] w ↔ w = [c] := by
  constructor
  · intro h
    rcases w with _ | ⟨d, w⟩
    · cases h
    · obtain ⟨hd, hw⟩ := List.cons.inj h
      rw [List.map_eq_nil_iff] at hw
      rw [hback d hd, hw]
  · rintro rfl
    simp [CaseVariant, toLower, hc]

theorem caseVariant_one : CaseVariant (text "1") w ↔ w = text "1" :=
  caseVariant_digit 49 rfl
    (@forall_byte (fun d => toLower d = 49 → d = 49) (by decide +kernel))

theorem caseVariant_zero : CaseVariant (text "0") w ↔ w = text "0" :=
  caseVariant_digit 48 rfl
    (@forall_byte (fun d => toLower d = 48 → d = 48) (by decide +kernel))

theorem wordLevel_iff : wordLevel w = some x ↔ words.Says w x := by
  unfold wordLevel Words.Says
  simp only [← caseVariant_one, ← caseVariant_zero]
  constructor
  · intro h
    split at h
    · rename_i hone
      cases h
      rcases hone with hone | hon
      · exact ⟨_, by simp [words], hone⟩
      · exact ⟨_, by simp [words], hon⟩
    · split at h
      · rename_i hzero
        cases h
        rcases hzero with hzero | hoff
        · exact ⟨_, by simp [words], hzero⟩
        · exact ⟨_, by simp [words], hoff⟩
      · cases h
  · rintro ⟨v, hmem, hv⟩
    -- a word is a variant of one word only
    have hother : ∀ u, u ≠ v → ¬ CaseVariant u w := fun u hne hu => hne (hu.symm.trans hv)
    simp only [words, List.mem_cons, Prod.mk.injEq, List.not_mem_nil, or_false] at hmem
    rcases hmem with ⟨rfl, rfl⟩ | ⟨rfl, rfl⟩ | ⟨rfl, rfl⟩ | ⟨rfl, rfl⟩
    · rw [if_pos (Or.inl hv)]
    · rw [if_pos (Or.inr hv)]
    · rw [if_neg (not_or.2 ⟨hother _ (by decide), hother _ (by decide)⟩), if_pos (Or.inl hv)]
    · rw [if_neg (not_or.2 ⟨hother _ (by decide), hother _ (by decide)⟩), if_pos (Or.inr hv)]

theorem beginsWith_iff : BeginsWith data x ↔ words.Begins data x := by
  unfold BeginsWith Words.Begins
  simp only [wordLevel_iff]

theorem whole_iff : whole data = some x ↔ words.Says (strip isSpace data) x := wordLevel_iff

/-- No word is longer than "off". -/
theorem length_le_three (h : words.Says w x) : w.length ≤ 3 := h.length_le (by decide)

/-! ### What the driver looks at -/

/-- `strncmp` finds a digit as well as `strncasecmp` would. -/
theorem strncmp_digit (s : List UInt8) (h0 : 0 ∉ v) (hv : ∀ w, CaseVariant v w ↔ w = v) :
    strncmp s v v.length = true ↔ ∃ w r, s = w ++ r ∧ CaseVariant v w := by
  rw [strncmp_iff h0]
  constructor
  · rintro ⟨r, hs⟩
    exact ⟨v, r, hs, (hv v).2 rfl⟩
  · rintro ⟨w, r, hs, hw⟩
    rw [(hv w).1 hw] at hs
    exact ⟨r, hs⟩

/-- **What the tests on `kbuf` find.** -/
theorem parse_iff (s : List UInt8) : parse s = some x ↔ words.Begins s x := by
  have hone : (strncmp s (text "1") 1 || strncasecmp s (text "on") 2) = true ↔
      words.Begins s 1 :=
    Words.either_iff (strncmp_digit s (by decide) (fun _ => caseVariant_one))
      (Words.strncasecmp_word (W := words) (x := 1) (by decide) s) (by simp [words])
  have hzero : (strncmp s (text "0") 1 || strncasecmp s (text "off") 3) = true ↔
      words.Begins s 0 :=
    Words.either_iff (strncmp_digit s (by decide) (fun _ => caseVariant_zero))
      (Words.strncasecmp_word (W := words) (x := 0) (by decide) s) (by simp [words])
  exact Words.ite_iff hone hzero (by decide) (by decide) x

/-- `kbuf` is the data with a NUL behind it. -/
theorem fillKbuf_eq (h : data.length < kbufSize) : ∃ z, fillKbuf data = data ++ 0 :: z := by
  refine ⟨List.replicate (kbufSize - 1 - data.length) 0, ?_⟩
  rw [← List.replicate_succ]
  apply List.ext_getElem
  · rw [fillKbuf, List.length_ofFn, List.length_append, List.length_replicate]
    omega
  · intro i hi _
    simp only [fillKbuf, List.getElem_ofFn]
    rw [List.getElem_append]
    split
    · exact (List.getElem_eq_getD 0).symm
    · rw [List.getElem_replicate, List.getD_eq_getElem?_getD, List.getElem?_eq_none (by omega)]
      rfl

/-- The words are short enough for `kbuf`. -/
theorem parse_fillKbuf (data : List UInt8) :
    parse (fillKbuf (data.take (min data.length (kbufSize - 1)))) = some x ↔
      BeginsWith data x := by
  have hlen : (data.take (min data.length (kbufSize - 1))).length < kbufSize := by
    rw [List.length_take]
    simp only [kbufSize]
    omega
  obtain ⟨z, hz⟩ := fillKbuf_eq hlen
  rw [parse_iff, beginsWith_iff, hz, ← Words.begins_cstr, cstr_append_zero, Words.begins_cstr,
    take_min_length, Words.begins_take (by decide)]

/-! ### One call -/

theorem einval_neg : einval < 0 := by decide

theorem beginsWith_ne_nil (h : BeginsWith data x) : data ≠ [] := by
  rintro rfl
  exact Words.not_begins_nil x (beginsWith_iff.1 h)

/-- A call that finds a word drives the pin, and takes at most 7 bytes. -/
theorem mgpioWrite_some (h : BeginsWith data x) : mgpioWrite data m =
    (((min data.length 7 : Nat) : Int), ⟨x, x, m.driven ++ [x]⟩) := by
  have hlen : data.length ≠ 0 := fun h0 => beginsWith_ne_nil h (List.length_eq_zero_iff.1 h0)
  rw [mgpioWrite, if_neg hlen]
  simp only [(parse_fillKbuf data).2 h]
  rfl

/-- A call that finds none does nothing. -/
theorem mgpioWrite_none (hne : data ≠ []) (h : ∀ x, ¬ BeginsWith data x) :
    mgpioWrite data m = (einval, m) := by
  have hnone : parse (fillKbuf (data.take (min data.length (kbufSize - 1)))) = none := by
    rw [Option.eq_none_iff_forall_ne_some]
    intro x hx
    exact h x ((parse_fillKbuf data).1 hx)
  rw [mgpioWrite, if_neg (fun h0 => hne (List.length_eq_zero_iff.1 h0))]
  simp only [hnone]

theorem mgpioWrite_ne_zero (data : List UInt8) (m : Pin) (hne : data ≠ []) :
    (mgpioWrite data m).1 ≠ 0 := by
  by_cases h : ∃ x, BeginsWith data x
  · obtain ⟨x, hx⟩ := h
    have := List.length_pos_iff.2 hne
    simp only [mgpioWrite_some hx]
    omega
  · rw [mgpioWrite_none hne (not_exists.1 h)]
    exact einval_neg.ne

/-- What has been driven stays driven. -/
theorem mem_driven_mgpioWrite (h : x ∈ m.driven) : x ∈ (mgpioWrite data m).2.driven := by
  by_cases hne : data = []
  · subst hne
    exact h
  · by_cases hb : ∃ y, BeginsWith data y
    · obtain ⟨y, hy⟩ := hb
      rw [mgpioWrite_some hy]
      exact List.mem_append_left _ h
    · rw [mgpioWrite_none hne (not_exists.1 hb)]
      exact h

/-! ### All of the buffer -/

/-- **What the program is told** when the buffer is a command with white space behind it.  The
first call drives the pin.  If it takes all of the buffer, that is the answer; otherwise the tail is
refused, and the answer is `-EINVAL`, although the command has been carried out. -/
theorem resubmit_blank (h : BeginsWith data x) (hw : whole data = some y) : x = y ∧
    resubmit mgpioWrite (data.length + 1) data m =
      some (if data.length ≤ 7 then (data.length : Int) else einval, ⟨x, x, m.driven ++ [x]⟩) := by
  obtain ⟨hxy, w, b, hdata, hsays, hb⟩ :=
    (beginsWith_iff.1 h).of_strip (fun _ hc => hc) (whole_iff.1 hw)
  refine ⟨hxy, ?_⟩
  have hfirst := mgpioWrite_some (m := m) h
  by_cases hshort : data.length ≤ 7
  · rw [Nat.min_eq_left hshort] at hfirst
    rw [resubmit_done (Or.inr (by rw [hfirst])), hfirst, if_pos hshort]
  · have hlen := length_le_three hsays
    rw [Nat.min_eq_right (by omega)] at hfirst
    -- behind the word there is white space only
    have htail : data.drop 7 = b.drop (7 - w.length) := by
      rw [hdata, List.drop_append, List.drop_eq_nil_of_le (by omega), List.nil_append]
    have hrest : ∀ x, ¬ BeginsWith (data.drop 7) x := by
      intro x hx
      rw [beginsWith_iff, htail] at hx
      exact Words.not_begins_blank (fun c hc => hb c (List.mem_of_mem_drop hc)) x hx
    have hne : data.drop 7 ≠ [] := by
      rw [Ne, List.drop_eq_nil_iff]
      exact hshort
    have hsecond := mgpioWrite_none (m := ⟨x, x, m.driven ++ [x]⟩) hne hrest
    obtain ⟨n, hn⟩ : ∃ n, data.length = n + 1 := ⟨data.length - 1, by omega⟩
    rw [resubmit_short (by rw [hfirst]; omega) (by rw [hfirst]; omega), hfirst, hn]
    show resubmit mgpioWrite (n + 1) (data.drop 7) ⟨x, x, m.driven ++ [x]⟩ = _
    rw [resubmit_done (Or.inl (by rw [hsecond]; exact einval_neg)), hsecond, if_neg (by omega)]

/-- `on` and six blanks. -/
example : resubmit mgpioWrite 9 (text "on      ") ⟨0, 0, []⟩ = some (einval, ⟨1, 1, [1]⟩) := by
  decide +kernel

/-- What the first call drives is never taken back. -/
theorem mem_driven_resubmit (h : BeginsWith data x) {fuel : Nat} {r : Int × Pin}
    (hr : resubmit mgpioWrite (fuel + 1) data m = some r) : x ∈ r.2.driven := by
  have hfirst : x ∈ (mgpioWrite data m).2.driven := by
    rw [mgpioWrite_some h]
    exact List.mem_append_right _ List.mem_cons_self
  by_cases hdone : (mgpioWrite data m).1 < 0 ∨ (data.length : Int) ≤ (mgpioWrite data m).1
  · rw [resubmit_done hdone] at hr
    cases hr
    exact hfirst
  · rw [resubmit_short (by omega) (by omega)] at hr
    exact resubmit_rule (P := fun _ s => x ∈ s.driven) (Q := fun r => x ∈ r.2.driven)
      (fun _ _ hs _ => mem_driven_mgpioWrite hs) (fun _ _ hs _ _ => mem_driven_mgpioWrite hs)
      hfirst hr

/-! ### The main result -/

/-- **Which buffers are judged as a whole.**  The program gets its answer, with at most one level
driven, exactly on the buffers that begin with a word only when they are one, up to the white space
behind it. -/
theorem judged_whole_iff (data : List UInt8) (level state : Int) :
    (∃ r, resubmit mgpioWrite (data.length + 1) data ⟨level, state, []⟩ = some r ∧
      JudgedWhole data ⟨level, state, []⟩ r) ↔
    data ≠ [] ∧ ((∃ x, BeginsWith data x) ↔ whole data ≠ none) := by
  by_cases hne : data = []
  · subst hne
    constructor
    · rintro ⟨r, hr, hjudged⟩
      cases hr
      exact absurd (hjudged.other (by decide)).1 einval_neg.ne'
    · exact fun h => absurd rfl h.1
  · obtain ⟨r, hr⟩ := resubmit_ends (s := (⟨level, state, []⟩ : Pin)) mgpioWrite_ne_zero
      (Nat.lt_succ_self data.length)
    by_cases hb : ∃ x, BeginsWith data x
    · obtain ⟨x, hx⟩ := hb
      constructor
      · rintro ⟨r', hr', hjudged⟩
        have hwhole := (hjudged.driven x).1 (mem_driven_resubmit hx hr')
        exact ⟨hne, fun _ => by simp [hwhole], fun _ => ⟨x, hx⟩⟩
      · rintro ⟨-, hiff⟩
        obtain ⟨y, hy⟩ := Option.ne_none_iff_exists'.1 (hiff.1 ⟨x, hx⟩)
        obtain ⟨rfl, hr⟩ := resubmit_blank hx hy
        refine ⟨_, hr, ?_, fun z => ?_, fun hnone => absurd (hnone.symm.trans hy) (by simp)⟩
        · simp
        · simp [hy, eq_comm]
    · have hw := mgpioWrite_none (m := ⟨level, state, []⟩) hne (not_exists.1 hb)
      have hlast : resubmit mgpioWrite (data.length + 1) data ⟨level, state, []⟩ =
          some (mgpioWrite data ⟨level, state, []⟩) :=
        resubmit_done (Or.inl (by rw [hw]; exact einval_neg))
      constructor
      · rintro ⟨r', hr', hjudged⟩
        rw [hlast, hw] at hr'
        cases hr'
        refine ⟨hne, fun h => absurd h hb, fun hsome => ?_⟩
        obtain ⟨y, hy⟩ := Option.ne_none_iff_exists'.1 hsome
        exact absurd ((hjudged.driven y).2 hy) List.not_mem_nil
      · rintro ⟨-, hiff⟩
        have hnone : whole data = none := by
          by_contra hsome
          exact hb (hiff.2 hsome)
        refine ⟨_, hlast, ?_⟩
        rw [hw]
        exact ⟨by simp, fun z => by simp [hnone], fun _ => ⟨rfl, rfl, rfl⟩⟩

/-- One buffer drives the pin twice. -/
theorem on_off : ¬ ∃ r, resubmit mgpioWrite 11 (text "on     off") ⟨0, 0, []⟩ = some r ∧
    JudgedWhole (text "on     off") ⟨0, 0, []⟩ r := by
  rintro ⟨r, hr, hjudged⟩
  have hr' : resubmit mgpioWrite 11 (text "on     off") ⟨0, 0, []⟩ = some (3, ⟨0, 0, [1, 0]⟩) := by
    decide +kernel
  rw [hr'] at hr
  cases hr
  exact absurd hjudged.once (by decide)

end EmbeddedLinux.MgpioDesc
