import EmbeddedLinux.Lib.Piecewise
import EmbeddedLinux.Lib.Stdio
import EmbeddedLinux.MgpioDesc.Shadow

/-!
# Reading the pin through the descriptor driver

`mgpio_read` gives the value of the pin as a text with a newline behind it.  It copies this text
whatever the length it is asked for, it has only 4 bytes to print it to, and it prints an error of
the GPIO layer like a value.

So the reads of one open file go well when the value has one or two digits and every read asks for
the whole text.  After one that has copied the text the others return 0 whatever they ask
for, and one that faults has copied what there was room for (`Asked`, `respects_iff`).
-/

namespace EmbeddedLinux.MgpioDesc

open CString Stdio Piecewise Interference Transition

/-- An open file, and `mdev->state`. -/
structure File where
  pos : Int
  state : Int

/-- `mgpio_read`, when `gpiod_get_value_cansleep` returns `v`. -/
def mgpioRead (v : Int) (c : Call) (s : File) : Piece UInt8 × File :=
  if s.pos ≠ 0 then (⟨0, []⟩, s)
  else
    let s := { s with state := truth v }
    let tmp := sampleText v
    let out := copyToUser c.room tmp
    if out.2 ≠ 0 then (⟨efault, out.1⟩, s)
    else (⟨tmp.length, out.1⟩, { s with pos := tmp.length })

/-- The text of a value, of which `tmp` takes the first 3 bytes. -/
def valueText (v : Int) : List UInt8 := decimal v ++ text "\n"

/-- What the calls on a file give to a program that has asked for these lengths, while the value
stays the same. -/
structure Respects (v : Int) (calls : List Call) (s : File) : Prop where
  within : Within Call.size calls (reads (mgpioRead v) calls s).1
  start : s.pos = 0 → 0 ≤ v → (∀ c ∈ calls, 0 < c.size) →
    returned (reads (mgpioRead v) calls s).1 <+: valueText v
  ends : s.pos = 0 → 0 ≤ v → (∀ c ∈ calls, 0 < c.size) → ∀ c : Call, 0 < c.size →
    ((mgpioRead v c (reads (mgpioRead v) calls s).2).1.ret = 0 ↔
      returned (reads (mgpioRead v) calls s).1 = valueText v)
  error : s.pos = 0 → v < 0 → (∀ p ∈ (reads (mgpioRead v) calls s).1, p.ret = v) ∧
    (reads (mgpioRead v) calls s).2.state = s.state

/-- The calls that find the file at its start, up to the first one with room for `n` bytes. -/
def atStart (n : Nat) : List Call → List Call
  | [] => []
  | c :: calls => if n ≤ c.room then [c] else c :: atStart n calls

/-- What has to be true of the calls on a file at its start.  An error of the GPIO layer is given
out as one only where it is the error that all the calls give, and `state` is what they make it. -/
structure Asked (v : Int) (calls : List Call) (s : File) : Prop where
  size : ∀ c ∈ atStart (sampleText v).length calls, min (sampleText v).length c.room ≤ c.size
  digits : 0 ≤ v → (∀ c ∈ calls, 0 < c.size) →
    (∃ c ∈ calls, (sampleText v).length ≤ c.room) → v ≤ 99
  error : v < 0 → v = efault ∧ s.state = truth v ∧ ∀ c ∈ calls, c.room < (sampleText v).length

/-- A call that no other process disturbs. -/
theorem read_alone {T : Type*} [DecidableEq T] {s : Interference.State T (Device T) Pc} {t : T}
    {ret : Int} (hpc : s.pc t = .returned ret) (c : Call) (pos : Nat) :
    let r := mgpioRead s.mem.level c { pos := pos, state := s.mem.state }
    Reachable (next fileStep) Any s
      (s.move t { s.mem with state := r.2.state } (.returned r.1.ret)) := by
  by_cases hpos : pos = 0
  · subst hpos
    by_cases hroom : (sampleText s.mem.level).length ≤ c.room
    · refine reachable_solo (?_ : solo fileStep t [.read 0, .ok, .ok, .ok] _ _ = _)
      simp [solo, fileStep, mgpioRead, copyToUser, hpc, hroom]
    · refine reachable_solo (?_ : solo fileStep t [.read 0, .ok, .ok, .fault] _ _ = _)
      simp [solo, fileStep, mgpioRead, copyToUser, Nat.sub_eq_zero_iff_le, hpc, hroom]
  · refine reachable_solo (?_ : solo fileStep t [.read pos] _ _ = _)
    simp [solo, fileStep, mgpioRead, hpc, hpos]

variable {v : Int} {c : Call} {calls : List Call} {s : File} {len : UInt64} {lens : List UInt64}

/-! ### The text of a value -/

theorem sampleText_eq (v : Int) : sampleText v = (valueText v).take 3 := rfl

theorem valueText_ne_nil (v : Int) : valueText v ≠ [] :=
  List.append_ne_nil_of_right_ne_nil _ (by decide)

theorem sampleText_length (v : Int) :
    (sampleText v).length = min 3 (valueText v).length ∧ 0 < (sampleText v).length := by
  have := List.length_pos_iff.2 (valueText_ne_nil v)
  rw [sampleText_eq, List.length_take]
  omega

/-- The offset behind the text. -/
theorem length_sampleText_ne_zero (v : Int) : ((sampleText v).length : Int) ≠ 0 := by
  have := (sampleText_length v).2
  omega

/-- Two digits and a newline fit into `tmp`. -/
theorem length_valueText (h : 0 ≤ v) : (valueText v).length ≤ 3 ↔ v ≤ 99 := by
  obtain ⟨n, rfl⟩ := Int.eq_ofNat_of_zero_le h
  have hdigits : (decimal n).length ≤ 2 ↔ n < 10 ^ 2 := by
    rw [decimal_natCast, bytes, List.length_map]
    exact Nat.length_toDigits_le_iff (by decide) (by decide)
  have hlen : (valueText n).length = (decimal n).length + 1 := List.length_append
  omega

theorem sampleText_eq_valueText (h : 0 ≤ v) : sampleText v = valueText v ↔ v ≤ 99 := by
  rw [sampleText_eq, List.take_eq_self_iff, length_valueText h]

/-! ### One call -/

theorem mgpioRead_of_pos (h : s.pos ≠ 0) : mgpioRead v c s = (⟨0, []⟩, s) := if_pos h

theorem mgpioRead_fault (h : s.pos = 0) (hroom : c.room < (sampleText v).length) :
    mgpioRead v c s = (⟨efault, (sampleText v).take c.room⟩, ⟨0, truth v⟩) := by
  rw [mgpioRead, if_neg (not_not.2 h)]
  simp only
  rw [if_pos (copyToUser_fault hroom), h]
  rfl

theorem mgpioRead_ok (h : s.pos = 0) (hroom : (sampleText v).length ≤ c.room) :
    mgpioRead v c s =
      (⟨(sampleText v).length, sampleText v⟩, ⟨(sampleText v).length, truth v⟩) := by
  rw [mgpioRead, if_neg (not_not.2 h)]
  simp only [copyToUser_ok hroom]
  exact if_neg (not_not.2 rfl)

/-- Only the offset tells a call that it is at the end. -/
theorem ret_eq_zero_iff : (mgpioRead v c s).1.ret = 0 ↔ s.pos ≠ 0 := by
  by_cases h : s.pos = 0
  · have hpos := (sampleText_length v).2
    by_cases hroom : (sampleText v).length ≤ c.room
    · rw [mgpioRead_ok h hroom]
      simp only
      omega
    · rw [mgpioRead_fault h (by omega)]
      simp [h, efault]
  · rw [mgpioRead_of_pos h]
    exact ⟨fun _ => h, fun _ => rfl⟩

/-! ### Many calls -/

theorem reads_of_pos (h : s.pos ≠ 0) (calls : List Call) :
    reads (mgpioRead v) calls s = (calls.map (fun _ => ⟨0, []⟩), s) := by
  induction calls with
  | nil => rfl
  | cons c calls ih => rw [reads_cons, mgpioRead_of_pos h, ih, List.map_cons]

theorem within_of_pos (h : s.pos ≠ 0) (calls : List Call) :
    Within Call.size calls (reads (mgpioRead v) calls s).1 := by
  rw [reads_of_pos h, Within, List.forall₂_map_right_iff, List.forall₂_same]
  intro c _
  exact ⟨Nat.zero_le _, Int.natCast_nonneg _⟩

/-- Calls without room for the text all fail. -/
theorem reads_fault (h : s.pos = 0) (hroom : ∀ c ∈ calls, c.room < (sampleText v).length) :
    (∀ p ∈ (reads (mgpioRead v) calls s).1, p.ret = efault) ∧
      returned (reads (mgpioRead v) calls s).1 = [] ∧
      (reads (mgpioRead v) calls s).2.pos = 0 := by
  induction calls generalizing s with
  | nil => exact ⟨fun p hp => (by cases hp), rfl, h⟩
  | cons c calls ih =>
    have hfirst := mgpioRead_fault h (hroom c List.mem_cons_self)
    obtain ⟨hrets, hreturned, hpos⟩ := ih (s := ⟨0, truth v⟩) rfl
      (fun d hd => hroom d (List.mem_cons_of_mem c hd))
    rw [reads_cons, hfirst, List.forall_mem_cons, returned_cons, hreturned]
    exact ⟨⟨rfl, hrets⟩, rfl, hpos⟩

/-- The first call with room for the text gives it, and those behind it nothing more. -/
theorem reads_ok (h : s.pos = 0) (hroom : ∃ c ∈ calls, (sampleText v).length ≤ c.room) :
    (∃ p ∈ (reads (mgpioRead v) calls s).1, 0 ≤ p.ret) ∧
      returned (reads (mgpioRead v) calls s).1 = sampleText v ∧
      (reads (mgpioRead v) calls s).2.pos ≠ 0 := by
  induction calls generalizing s with
  | nil =>
    obtain ⟨c, hc, -⟩ := hroom
    cases hc
  | cons c calls ih =>
    rw [reads_cons, returned_cons]
    by_cases hc : (sampleText v).length ≤ c.room
    · have hpos := length_sampleText_ne_zero v
      have hnone : returned (calls.map (fun _ => (⟨0, []⟩ : Piece UInt8))) = [] := by
        rw [returned, List.flatMap_eq_nil_iff]
        intro p hp
        obtain ⟨_, _, rfl⟩ := List.mem_map.1 hp
        rfl
      rw [mgpioRead_ok h hc, reads_of_pos hpos, hnone, List.append_nil, Piece.returned,
        Int.toNat_natCast, List.take_length]
      exact ⟨⟨_, List.mem_cons_self, Int.natCast_nonneg _⟩, rfl, hpos⟩
    · have hlater : ∃ d ∈ calls, (sampleText v).length ≤ d.room := by
        obtain ⟨d, hd, hle⟩ := hroom
        rcases List.mem_cons.1 hd with rfl | hd
        · exact absurd hle hc
        · exact ⟨d, hd, hle⟩
      rw [mgpioRead_fault h (by omega)]
      obtain ⟨⟨p, hp, hret⟩, hreturned, hpos⟩ := ih (s := ⟨0, truth v⟩) rfl hlater
      exact ⟨⟨p, List.mem_cons_of_mem _ hp, hret⟩, hreturned, hpos⟩

/-- Every call at the start stores the value. -/
theorem reads_state (h : s.pos = 0) (hne : calls ≠ []) :
    (reads (mgpioRead v) calls s).2.state = truth v := by
  induction calls generalizing s with
  | nil => exact absurd rfl hne
  | cons c calls ih =>
    rw [reads_cons]
    by_cases hc : (sampleText v).length ≤ c.room
    · have hpos := length_sampleText_ne_zero v
      rw [mgpioRead_ok h hc, reads_of_pos hpos]
    · rw [mgpioRead_fault h (by omega)]
      rcases calls with _ | ⟨d, calls⟩
      · rfl
      · exact ih rfl (List.cons_ne_nil d calls)

/-- **Which calls copy too much.** -/
theorem within_iff (h : s.pos = 0) : Within Call.size calls (reads (mgpioRead v) calls s).1 ↔
    ∀ c ∈ atStart (sampleText v).length calls, min (sampleText v).length c.room ≤ c.size := by
  induction calls generalizing s with
  | nil => exact ⟨fun _ c hc => (by cases hc), fun _ => .nil⟩
  | cons c calls ih =>
    rw [reads_cons, Within, List.forall₂_cons, atStart]
    by_cases hc : (sampleText v).length ≤ c.room
    · have hpos := length_sampleText_ne_zero v
      have hrest := within_of_pos (v := v) (s := ⟨(sampleText v).length, truth v⟩) hpos calls
      rw [mgpioRead_ok h hc, if_pos hc, List.forall_mem_singleton]
      refine (and_iff_left hrest).trans ?_
      simp only
      omega
    · rw [mgpioRead_fault h (by omega), if_neg hc, List.forall_mem_cons]
      refine and_congr ?_ (ih rfl)
      simp only [List.length_take, efault]
      omega

/-! ### The main result -/

theorem respects_of_pos (h : s.pos ≠ 0) (calls : List Call) : Respects v calls s :=
  ⟨within_of_pos h calls, fun h0 => absurd h0 h, fun h0 => absurd h0 h, fun h0 => absurd h0 h⟩

theorem respects_nil (v : Int) (s : File) : Respects v [] s := by
  refine ⟨.nil, fun _ _ _ => List.nil_prefix, fun hs _ _ c _ => ?_, fun _ _ => ⟨?_, rfl⟩⟩
  · rw [ret_eq_zero_iff]
    exact ⟨fun h => absurd hs h, fun h => absurd h.symm (valueText_ne_nil v)⟩
  · intro p hp
    cases hp

theorem asked_of_respects (h : s.pos = 0) (hne : calls ≠ []) (hr : Respects v calls s) :
    Asked v calls s := by
  refine ⟨(within_iff h).1 hr.within, fun h0 hsizes hroom => ?_, fun hneg => ?_⟩
  · -- the end of the file comes behind what `tmp` has taken
    obtain ⟨-, hreturned, hpos⟩ := reads_ok h hroom
    have hends := (hr.ends h h0 hsizes { len := 1, room := 1 } (by decide)).1
      (ret_eq_zero_iff.2 hpos)
    rw [hreturned] at hends
    exact (sampleText_eq_valueText h0).1 hends
  · obtain ⟨hrets, hstate⟩ := hr.error h hneg
    have hnone : ∀ c ∈ calls, c.room < (sampleText v).length := by
      by_contra hnot
      push Not at hnot
      obtain ⟨⟨p, hp, hret⟩, -⟩ := reads_ok (v := v) h hnot
      have := hrets p hp
      omega
    obtain ⟨c, rest, rfl⟩ := List.exists_cons_of_ne_nil hne
    have hfirst := hrets _ List.mem_cons_self
    rw [(reads_fault h hnone).1 _ List.mem_cons_self] at hfirst
    exact ⟨hfirst.symm, hstate.symm.trans (reads_state h hne), hnone⟩

theorem respects_of_asked (h : s.pos = 0) (hne : calls ≠ []) (ha : Asked v calls s) :
    Respects v calls s := by
  by_cases hroom : ∃ c ∈ calls, (sampleText v).length ≤ c.room
  · obtain ⟨-, hreturned, hpos⟩ := reads_ok (v := v) h hroom
    refine ⟨(within_iff h).2 ha.size, fun _ _ _ => ?_, fun _ h0 hsizes c _ => ?_,
      fun _ hneg => ?_⟩
    · rw [hreturned]
      exact List.take_prefix 3 (valueText v)
    · rw [ret_eq_zero_iff, hreturned, sampleText_eq_valueText h0]
      exact iff_of_true hpos (ha.digits h0 hsizes hroom)
    · obtain ⟨c, hc, hle⟩ := hroom
      have := (ha.error hneg).2.2 c hc
      omega
  · have hnone : ∀ c ∈ calls, c.room < (sampleText v).length := by
      push Not at hroom
      exact hroom
    obtain ⟨hrets, hreturned, hpos⟩ := reads_fault h hnone
    refine ⟨(within_iff h).2 ha.size, fun _ _ _ => ?_, fun _ _ _ c _ => ?_, fun _ hneg => ?_⟩
    · rw [hreturned]
      exact List.nil_prefix
    · rw [ret_eq_zero_iff, hreturned]
      exact iff_of_false (not_not.2 hpos) (valueText_ne_nil v).symm
    · obtain ⟨herr, hstate, -⟩ := ha.error hneg
      rw [reads_state h hne, hstate]
      exact ⟨fun p hp => (hrets p hp).trans herr.symm, rfl⟩

/-! ### Whatever room there is -/

/-- A call with room for the text, if there is one, finds the file at its start. -/
theorem exists_atStart {n : Nat} (h : ∃ c ∈ calls, n ≤ c.room) :
    ∃ c ∈ atStart n calls, c ∈ calls ∧ n ≤ c.room := by
  induction calls with
  | nil =>
    obtain ⟨c, hc, -⟩ := h
    cases hc
  | cons c calls ih =>
    rw [atStart]
    by_cases hc : n ≤ c.room
    · rw [if_pos hc]
      exact ⟨c, List.mem_cons_self, List.mem_cons_self, hc⟩
    · rw [if_neg hc]
      obtain ⟨d, hd, hle⟩ := h
      rcases List.mem_cons.1 hd with rfl | hd
      · exact absurd hle hc
      · obtain ⟨e, he, hmem, hle⟩ := ih ⟨d, hd, hle⟩
        exact ⟨e, List.mem_cons_of_mem c he, List.mem_cons_of_mem c hmem, hle⟩

theorem atStart_subset {n : Nat} (hc : c ∈ atStart n calls) : c ∈ calls := by
  induction calls with
  | nil => cases hc
  | cons d calls ih =>
    rw [atStart] at hc
    split at hc
    · rw [List.mem_singleton.1 hc]
      exact List.mem_cons_self
    · rcases List.mem_cons.1 hc with rfl | hc
      · exact List.mem_cons_self
      · exact List.mem_cons_of_mem d (ih hc)

theorem asked_of_digits (h0 : 0 ≤ v) (h99 : v ≤ 99)
    (hsize : ∀ c ∈ calls, (valueText v).length ≤ c.size) : Asked v calls s := by
  rw [← (sampleText_eq_valueText h0).2 h99] at hsize
  refine ⟨fun c hc => ?_, fun _ _ _ => h99, fun hneg => by omega⟩
  exact (Nat.min_le_left _ _).trans (hsize c (atStart_subset hc))

/-- **What the lengths have to be** when the calls of these lengths go well with any room. -/
theorem digits_of_asked (hne : lens ≠ [])
    (h : ∀ room : UInt64 → Nat, Asked v (lens.map fun l => ⟨l, room l⟩) s) :
    0 ≤ v ∧ v ≤ 99 ∧ ∀ len ∈ lens, (valueText v).length ≤ len.toNat := by
  obtain ⟨first, hfirst⟩ := List.exists_mem_of_ne_nil lens hne
  -- there is room for all of the text everywhere
  have hfull := h (fun _ => (sampleText v).length)
  have hcall := List.mem_map_of_mem (f := fun l => (⟨l, (sampleText v).length⟩ : Call)) hfirst
  have h0 : 0 ≤ v := by
    by_contra hneg
    exact Nat.lt_irrefl _ ((hfull.error (by omega)).2.2 _ hcall)
  -- there is room only where too little is asked for
  have hlens : ∀ len ∈ lens, (sampleText v).length ≤ len.toNat := by
    intro len hlen
    by_contra hlt
    have hpos := (sampleText_length v).2
    let room : UInt64 → Nat := fun l =>
      if l.toNat < (sampleText v).length then (sampleText v).length else 0
    have hroom : (sampleText v).length ≤ room len := by
      simp only [room, if_pos (Nat.lt_of_not_le hlt)]
      exact Nat.le_refl _
    obtain ⟨c, hstart, hc, hle⟩ := exists_atStart
      ⟨_, List.mem_map_of_mem (f := fun l => (⟨l, room l⟩ : Call)) hlen, hroom⟩
    have hsize := (h room).size c hstart
    rw [Nat.min_eq_left hle] at hsize
    obtain ⟨l, -, rfl⟩ := List.mem_map.1 hc
    have hnone : room l = 0 := if_neg (Nat.not_lt.2 hsize)
    simp only [hnone] at hle
    omega
  have h99 : v ≤ 99 := by
    refine hfull.digits h0 (fun c hc => ?_) ⟨_, hcall, Nat.le_refl _⟩
    obtain ⟨l, hl, rfl⟩ := List.mem_map.1 hc
    exact (sampleText_length v).2.trans_le (hlens l hl)
  rw [← (sampleText_eq_valueText h0).2 h99]
  exact ⟨h0, h99, hlens⟩

/-- **Which calls go well**, each with its length and its room. -/
theorem respects_iff_asked (v : Int) (s : File) (calls : List Call) :
    Respects v calls s ↔ calls = [] ∨ s.pos ≠ 0 ∨ Asked v calls s := by
  by_cases hpos : s.pos = 0
  · by_cases hne : calls = []
    · subst hne
      exact iff_of_true (respects_nil v s) (Or.inl rfl)
    · constructor
      · exact fun hr => Or.inr (Or.inr (asked_of_respects hpos hne hr))
      · intro h
        exact respects_of_asked hpos hne ((h.resolve_left hne).resolve_left (not_not.2 hpos))
  · exact iff_of_true (respects_of_pos hpos calls) (Or.inr (Or.inl hpos))

/-- **Which reads go well.**  Each call has its length, and the room that the program's memory has
for it.  Whatever that room is, the reads of some lengths go well exactly when there is none,
when the file is at its end already, or when the value has at most two digits and each of
them asks for the whole text. -/
theorem respects_iff (v : Int) (s : File) :
    (∀ calls, Respects v calls s ↔ calls = [] ∨ s.pos ≠ 0 ∨ Asked v calls s) ∧
      ∀ lens : List UInt64,
        (∀ calls : List Call, calls.map Call.len = lens → Respects v calls s) ↔
          lens = [] ∨ s.pos ≠ 0 ∨
            (0 ≤ v ∧ v ≤ 99 ∧ ∀ len ∈ lens, (valueText v).length ≤ len.toNat) := by
  refine ⟨respects_iff_asked v s, fun lens => ⟨fun h => ?_, ?_⟩⟩
  · by_cases hpos : s.pos = 0
    · by_cases hne : lens = []
      · exact Or.inl hne
      · have hasked : ∀ room : UInt64 → Nat, Asked v (lens.map fun l => ⟨l, room l⟩) s := by
          intro room
          refine asked_of_respects hpos (fun hnil => hne (List.map_eq_nil_iff.1 hnil)) (h _ ?_)
          rw [List.map_map]
          exact List.map_id lens
        exact Or.inr (Or.inr (digits_of_asked hne hasked))
    · exact Or.inr (Or.inl hpos)
  · rintro h calls rfl
    rw [respects_iff_asked]
    refine h.imp List.map_eq_nil_iff.1 (Or.imp_right ?_)
    rintro ⟨h0, h99, hlens⟩
    exact asked_of_digits h0 h99 (fun c hc => hlens c.len (List.mem_map_of_mem hc))

/-- One byte is asked for and two are copied, and an error is given out as its text. -/
theorem short_read_and_error :
    ¬ Respects 1 [{ len := 1, room := 2 }] { pos := 0, state := 0 } ∧
      ¬ Respects (-5) [{ len := 16, room := 16 }] { pos := 0, state := 0 } := by
  constructor
  · intro h
    obtain ⟨⟨hcopied, -⟩, -⟩ := List.forall₂_cons.1 h.within
    exact absurd hcopied (by decide)
  · intro h
    exact absurd ((h.error rfl (by decide)).1 _ List.mem_cons_self) (by decide)

end EmbeddedLinux.MgpioDesc
