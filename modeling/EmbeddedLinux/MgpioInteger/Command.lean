import EmbeddedLinux.Lib.Buffer
import EmbeddedLinux.Lib.Words
import EmbeddedLinux.MgpioInteger.Shadow

/-!
# The commands of the integer driver

`mgpio_write` looks at 31 bytes of the buffer, cuts the newlines and blanks at their end with a loop
of its own, and then compares only what is left at the start with "on" and "off".

The loop stays inside of `kbuf`, whatever stands there before (`mgpioWrite_inside`).  The driver
does what the whole buffer says exactly when there are only newlines and blanks behind a word that
the buffer begins with (`trimmed_command_iff`).
-/

namespace EmbeddedLinux.MgpioInteger

open CString KString Buffer Interference Transition

/-- The loop, with checked accesses to `kbuf`. -/
def trimChecked (kbuf : List UInt8) : Nat → Option (List UInt8 × Nat)
  | 0 => some (kbuf, 0)
  | len + 1 =>
    (load kbuf len).bind fun c =>
      if isTrimmed c then (store kbuf len 0).bind fun kbuf => trimChecked kbuf len
      else some (kbuf, len + 1)

/-- What a call has done: its value, the values that it has called `gpio_set_value` with, and `len`
after the loop. -/
structure Done where
  ret : Int
  set : List Int
  len : Nat
  deriving DecidableEq

/-- The end of `mgpio_write`, behind the tests on `kbuf`. -/
def doneOf (data : List UInt8) (len : Nat) : Option Int → Done
  | some x => { ret := data.length, set := [x], len := len }
  | none => { ret := einval, set := [], len := len }

/-- `mgpio_write` on a buffer that can be read, with any bytes in `kbuf` before. -/
def mgpioWrite (kbuf data : List UInt8) : Option Done :=
  let len := min data.length (bufLen - 1)
  (copyIn kbuf (data.take len)).bind fun kbuf =>
    (store kbuf len 0).bind fun kbuf =>
      (trimChecked kbuf len).map fun trimmed => doneOf data trimmed.2 (parse trimmed.1)

/-- The level that the whole buffer asks for, without the newlines and blanks at its end. -/
def wholeCommand (data : List UInt8) : Option Int :=
  if CaseVariant (text "on") (data.rdropWhile isTrimmed) then some 1
  else if CaseVariant (text "off") (data.rdropWhile isTrimmed) then some 0
  else none

/-- The driver does what the whole buffer says. -/
structure DoesWhole (data : List UInt8) (d : Done) : Prop where
  len : d.len ≤ bufLen - 1
  set : d.set = (wholeCommand data).toList
  ret : wholeCommand data = none → d.ret = einval

def words : Words Int where
  list := [(text "on", 1), (text "off", 0)]
  lower := by decide
  plain := by decide +kernel
  front := by decide

variable {data w r z kbuf : List UInt8} {x y : Int} {len : Nat}

/-! ### The loop -/

/-- Inside of the array the checks make no difference. -/
theorem trimChecked_eq (h : len ≤ kbuf.length) :
    trimChecked kbuf len = some (trimLoop kbuf len) := by
  induction len generalizing kbuf with
  | zero => rfl
  | succ len ih =>
    rw [trimChecked, trimLoop, load_of_lt h, store_of_lt h, Option.bind_some, Option.bind_some,
      ← List.getElem_eq_getD (h := h)]
    split
    · apply ih
      rw [List.length_set]
      omega
    · rfl

/-- **What the loop leaves.** -/
theorem trimLoop_spec (data z : List UInt8) : ∃ z',
    trimLoop (data ++ 0 :: z) data.length =
      (data.rdropWhile isTrimmed ++ 0 :: z', (data.rdropWhile isTrimmed).length) := by
  induction data using List.reverseRecOn generalizing z with
  | nil => exact ⟨z, rfl⟩
  | append_singleton data c ih =>
    have hlast : (data ++ [c] ++ 0 :: z).getD data.length 0 = c := by
      rw [List.getD_eq_getElem?_getD, List.append_assoc, List.getElem?_append_right (Nat.le_refl _),
        Nat.sub_self]
      rfl
    rw [List.length_append, List.length_singleton, trimLoop, hlast]
    by_cases hc : isTrimmed c = true
    · have hset : (data ++ [c] ++ 0 :: z).set data.length 0 = data ++ 0 :: 0 :: z := by
        rw [List.append_assoc, List.set_append_right _ _ (Nat.le_refl _), Nat.sub_self]
        rfl
      rw [if_pos hc, hset, List.rdropWhile_concat_pos _ _ _ hc]
      exact ih (0 :: z)
    · rw [if_neg hc, List.rdropWhile_concat_neg _ _ _ hc, List.length_append]
      exact ⟨z, rfl⟩

/-! ### The tests -/

theorem isSpace_of_isTrimmed (c : UInt8) : isTrimmed c = true → isSpace c = true :=
  @forall_byte (fun c => isTrimmed c = true → isSpace c = true) (by decide +kernel) c

/-- What the tests on `kbuf` find. -/
theorem parse_iff (s : List UInt8) : parse s = some x ↔ words.Begins s x := by
  have hon : strncasecmp s (text "on") 2 = true ↔ words.Begins s 1 :=
    Words.test_iff (Words.strncasecmp_word (W := words) (x := 1) (by decide) s) (by simp [words])
  have hoff : strncasecmp s (text "off") 3 = true ↔ words.Begins s 0 :=
    Words.test_iff (Words.strncasecmp_word (W := words) (x := 0) (by decide) s) (by simp [words])
  exact Words.ite_iff hon hoff (by decide) (by decide) x

/-- What stands behind the NUL makes no difference. -/
theorem parse_append_zero (w z z' : List UInt8) : parse (w ++ 0 :: z) = parse (w ++ 0 :: z') := by
  apply Option.ext
  intro x
  rw [parse_iff, parse_iff, ← Words.begins_cstr, ← Words.begins_cstr (s := w ++ 0 :: z'),
    cstr_append_zero, cstr_append_zero]

/-- The driver finds the word that the buffer begins with. -/
theorem command_iff (data : List UInt8) :
    command (data.take (bufLen - 1)) = some x ↔ words.Begins data x := by
  obtain ⟨z, hz⟩ := trimLoop_spec (data.take (bufLen - 1)) []
  rw [command, fillKbuf, hz, parse_iff, ← Words.begins_cstr, cstr_append_zero, Words.begins_cstr,
    Words.begins_rdropWhile isSpace_of_isTrimmed, Words.begins_take (by decide)]

/-- **One call.**  It stays inside of `kbuf`. -/
theorem mgpioWrite_eq (kbuf : Fin bufLen → UInt8) (data : List UInt8) : ∃ len ≤ bufLen - 1,
    mgpioWrite (List.ofFn kbuf) data =
      some (doneOf data len (command (data.take (bufLen - 1)))) := by
  have hmin : min data.length (bufLen - 1) = (data.take (bufLen - 1)).length := by
    rw [List.length_take, Nat.min_comm]
  have hlen : (data.take (bufLen - 1)).length ≤ bufLen - 1 := List.length_take_le _ _
  have hlt : (data.take (bufLen - 1)).length < (List.ofFn kbuf).length := by
    rw [List.length_ofFn]
    exact Nat.lt_of_le_of_lt hlen (by decide)
  obtain ⟨x, r, hr⟩ := drop_eq_cons hlt
  obtain ⟨z, hz⟩ := trimLoop_spec (data.take (bufLen - 1)) r
  obtain ⟨z', hz'⟩ := trimLoop_spec (data.take (bufLen - 1)) []
  refine ⟨((data.take (bufLen - 1)).rdropWhile isTrimmed).length, ?_, ?_⟩
  · exact Nat.le_trans (List.rdropWhile_prefix _ _).length_le hlen
  · unfold mgpioWrite
    simp only [take_min_length]
    rw [hmin, copyIn_of_le (Nat.le_of_lt hlt), hr, Option.bind_some, store_append, Option.bind_some,
      trimChecked_eq (by rw [List.length_append]; omega), hz, Option.map_some, command, fillKbuf,
      hz', parse_append_zero _ z z']

/-- What a process does in a call that no other process disturbs. -/
theorem write_solo {T : Type*} (t : T) (data : List UInt8) (m : Memory T) (l : Local)
    (hpc : l.pc = .idle) (hlock : m.mgpioLock = none) (len : Nat) :
    let d := doneOf data len (command (data.take (bufLen - 1)))
    ∃ es m' l', solo step t es m l = some (m', l') ∧ l'.pc = .idle ∧
      m'.level = d.set.getLastD m.level ∧ m'.gpioState = d.set.getLastD m.gpioState ∧
      m'.returns = m.returns ++ [{ ret := d.ret, changed := decide (d.set ≠ []) }] := by
  obtain ⟨pc, changed⟩ := l
  obtain rfl : pc = .idle := hpc
  have hlen : (data.take (bufLen - 1)).length = min data.length (bufLen - 1) := by
    rw [List.length_take, Nat.min_comm]
  cases hcmd : command (data.take (bufLen - 1)) with
  | none =>
    refine ⟨[.write data.length, .data (data.take (bufLen - 1)), .ok, .ok, .ok, .ok], ?_⟩
    simp only [solo, step, Option.bind_some, if_pos hlen, hcmd, if_pos hlock]
    exact ⟨_, _, rfl, rfl, rfl, rfl, rfl⟩
  | some x =>
    refine ⟨[.write data.length, .data (data.take (bufLen - 1)), .ok, .ok, .ok, .ok, .ok, .ok], ?_⟩
    simp only [solo, step, Option.bind_some, if_pos hlen, hcmd, if_pos hlock]
    exact ⟨_, _, rfl, rfl, rfl, rfl, rfl⟩

/-- Such a call is part of a run of the driver. -/
theorem write_alone {T : Type*} [DecidableEq T] {s : State T (Memory T) Local} {t : T}
    (hpc : (s.pc t).pc = .idle) (hlock : s.mem.mgpioLock = none) (data : List UInt8) (len : Nat) :
    let d := doneOf data len (command (data.take (bufLen - 1)))
    ∃ s', Reachable (next step) Any s s' ∧ (s'.pc t).pc = .idle ∧
      s'.mem.level = d.set.getLastD s.mem.level ∧
      s'.mem.gpioState = d.set.getLastD s.mem.gpioState ∧
      s'.mem.returns = s.mem.returns ++ [{ ret := d.ret, changed := decide (d.set ≠ []) }] := by
  obtain ⟨es, m, l, hsolo, hidle, hmem⟩ := write_solo t data s.mem (s.pc t) hpc hlock len
  refine ⟨s.move t m l, reachable_solo hsolo, ?_, hmem⟩
  rw [State.move_self]
  exact hidle

/-! ### The main result -/

/-- The call stays inside of `kbuf`, and its loop ends. -/
theorem mgpioWrite_inside (kbuf : Fin bufLen → UInt8) (data : List UInt8) :
    ∃ d, mgpioWrite (List.ofFn kbuf) data = some d ∧ d.len ≤ bufLen - 1 := by
  obtain ⟨len, hlen, heq⟩ := mgpioWrite_eq kbuf data
  refine ⟨_, heq, ?_⟩
  cases command (data.take (bufLen - 1)) with
  | none => exact hlen
  | some x => exact hlen

theorem wholeCommand_iff : wholeCommand data = some x ↔
    words.Says (data.rdropWhile isTrimmed) x :=
  Words.ite_says (W := words) rfl (by decide) Iff.rfl Iff.rfl

/-- The driver does what the whole buffer says if it finds that command. -/
theorem doesWhole_iff (hlen : len ≤ bufLen - 1) (cmd : Option Int) :
    DoesWhole data (doneOf data len cmd) ↔ cmd = wholeCommand data := by
  constructor
  · intro h
    have hset := h.set
    cases cmd with
    | none =>
      cases hwhole : wholeCommand data with
      | none => rfl
      | some y =>
        rw [hwhole] at hset
        cases hset
    | some x =>
      cases hwhole : wholeCommand data with
      | none =>
        rw [hwhole] at hset
        cases hset
      | some y =>
        rw [hwhole] at hset
        exact congrArg some (List.singleton_inj.1 hset)
  · rintro rfl
    cases hwhole : wholeCommand data with
    | none => exact ⟨hlen, by rw [hwhole]; rfl, fun _ => rfl⟩
    | some x => exact ⟨hlen, by rw [hwhole]; rfl, fun h => absurd (hwhole.symm.trans h) (by simp)⟩

/-- **Which buffers the driver judges as a whole.** -/
theorem trimmed_command_iff (kbuf : Fin bufLen → UInt8) (data : List UInt8) :
    (∃ d, mgpioWrite (List.ofFn kbuf) data = some d ∧ DoesWhole data d) ↔
      ∀ w r, data = w ++ r → (CaseVariant (text "on") w ∨ CaseVariant (text "off") w) →
        ∀ c ∈ r, isTrimmed c = true := by
  obtain ⟨len, hlen, heq⟩ := mgpioWrite_eq kbuf data
  have hiff : (∃ d, mgpioWrite (List.ofFn kbuf) data = some d ∧ DoesWhole data d) ↔
      command (data.take (bufLen - 1)) = wholeCommand data := by
    rw [← doesWhole_iff hlen, heq]
    simp only [Option.some.injEq, exists_eq_left']
  rw [hiff]
  constructor
  · rintro h w r rfl hw
    obtain ⟨x, hx⟩ := (Words.exists_says_two (W := words) rfl).2 hw
    have hwhole := h.symm.trans (command_iff _ |>.2 ⟨w, r, rfl, hx⟩)
    obtain ⟨w', b, hsplit, hx', hb⟩ :=
      (Words.says_rdropWhile isSpace_of_isTrimmed).1 (wholeCommand_iff.1 hwhole)
    obtain ⟨rfl, -⟩ := Words.unique hsplit hx hx'
    rw [List.append_cancel_left_eq] at hsplit
    rw [hsplit]
    exact hb
  · intro h
    apply Option.ext
    intro x
    rw [command_iff, wholeCommand_iff, Words.says_rdropWhile isSpace_of_isTrimmed]
    constructor
    · rintro ⟨w, r, rfl, hw⟩
      exact ⟨w, r, rfl, hw, h w r rfl ((Words.exists_says_two (W := words) rfl).1 ⟨x, hw⟩)⟩
    · rintro ⟨w, b, rfl, hw, -⟩
      exact ⟨w, b, rfl, hw⟩

/-- "once" turns the GPIO on. -/
theorem once_is_on : ¬ ∃ d, mgpioWrite (List.ofFn fun _ : Fin bufLen => 0) (text "once") = some d ∧
    DoesWhole (text "once") d := by
  rintro ⟨d, hd, hwhole⟩
  have hd' : mgpioWrite (List.ofFn fun _ : Fin bufLen => 0) (text "once") = some ⟨4, [1], 4⟩ := by
    decide +kernel
  rw [hd'] at hd
  cases hd
  exact absurd hwhole.set (by decide +kernel)

end EmbeddedLinux.MgpioInteger
