import EmbeddedLinux.Chat.Lines

/-!
# The buffers of the commands

The `connect` branch of `handle_commands` scans a word into `ip`, and the `send` branch the rest of
the line into `msg`.  `Stores` says how many bytes go there.  The width in `%63s` is that of
`ip`; `%[^\n]` has none, and the line buffer is larger than `msg`.  So the bytes fit exactly
when the line is not a `LongMessage` (`scanned_fits_iff`).

`fgets` may have cut the line, or stopped at the end of the input: nothing is assumed of what it has
delivered.
-/

namespace EmbeddedLinux.Chat

open CString Stdio

/-- The size of `ip` in `handle_commands`. -/
abbrev ipSize : Nat := 64

/-- The bytes that an iteration stores into `ip` and into `msg`, their NULs included. -/
structure Stores where
  ip : Nat
  msg : Nat

/-- `sscanf(command + 8, "%63s %d", ip, &port)` -/
def connectStores (args : List UInt8) : Stores :=
  match sscanf args [.str 63, .space, .int] with
  | .str ip :: _ => { ip := ip.length + 1, msg := 0 }
  | _ => { ip := 0, msg := 0 }

/-- `sscanf(command + 5, "%d %[^\n]", &id, msg)` -/
def sendStores (args : List UInt8) : Stores :=
  match sscanf args [.int, .space, .notIn [newline]] with
  | [.int _, .str msg] => { ip := 0, msg := msg.length + 1 }
  | _ => { ip := 0, msg := 0 }

/-- The branches of the chain of tests on `command` that scan a string. -/
def stores (command : List UInt8) : Stores :=
  if strncmp command (text "connect ") 8 then connectStores (command.drop 8)
  else if strncmp command (text "send ") 5 then sendStores (command.drop 5)
  else { ip := 0, msg := 0 }

variable {serverPort : Int} {line command args : List UInt8}

/-! ### The text -/

/-- The array holds the text. -/
theorem handle_lineText (line : List UInt8) :
    handleCommand serverPort (cutNewline line) = handleLine serverPort (lineText line) := by
  refine handleCommand_congr ?_
  rw [cstr_append_zero, cstr_of_zero_notMem (zero_notMem_lineText line)]
  exact cstr_cutNewline_eq line

/-! ### What is stored -/

/-- The width of `%63s`. -/
theorem connectStores_fits (args : List UInt8) :
    (connectStores args).ip ≤ ipSize ∧ (connectStores args).msg = 0 := by
  unfold connectStores sscanf scan
  simp only
  split
  · rename_i hscan
    split at hscan
    · cases hscan
    · rw [← Value.str.inj (List.cons.inj hscan).1]
      refine ⟨?_, rfl⟩
      have := List.length_take_le 63
        (((cstr args).dropWhile isSpace).takeWhile (fun x => !isSpace x))
      show _ + 1 ≤ 64
      omega
  · exact ⟨Nat.zero_le _, rfl⟩

/-- What is sent is what has been stored. -/
theorem sendStores_spec (args : List UInt8) : (sendStores args).ip = 0 ∧
    (msgSize < (sendStores args).msg ↔
      ∃ id msg, sendCommand args = .sendMessage id msg ∧ msgSize ≤ msg.length) := by
  obtain ⟨id, msg, hd, hscan⟩ | ⟨out, hd⟩ := sendCommand_cases args
  · have hstores : sendStores args = { ip := 0, msg := msg.length + 1 } := by
      rw [sendStores, hscan]
    rw [hd, hstores]
    refine ⟨rfl, fun h => ⟨id, msg, rfl, Nat.le_of_lt_succ h⟩, ?_⟩
    rintro ⟨id', msg', hd', hlen⟩
    cases hd'
    exact Nat.lt_succ_of_le hlen
  · have hstores : sendStores args = { ip := 0, msg := 0 } := by
      unfold sendStores
      split
      · rename_i hscan
        rw [sendCommand, hscan] at hd
        cases hd
      · rfl
    rw [hd, hstores]
    refine ⟨rfl, fun h => absurd h (Nat.not_lt_zero _), ?_⟩
    rintro ⟨id', msg', hd', -⟩
    cases hd'

/-- Only a message can be too long. -/
theorem stores_spec (serverPort : Int) (command : List UInt8) : (stores command).ip ≤ ipSize ∧
    (msgSize < (stores command).msg ↔
      ∃ id msg, handleCommand serverPort command = .sendMessage id msg ∧
        msgSize ≤ msg.length) := by
  unfold stores
  by_cases hconnect : strncmp command (text "connect ") 8 = true
  · obtain ⟨args, rfl⟩ := (strncmp_iff (by decide)).1 hconnect
    obtain ⟨hip, hmsg⟩ := connectStores_fits args
    rw [if_pos hconnect, handleCommand_connect]
    refine ⟨hip, fun h => ?_, ?_⟩
    · rw [show (text "connect " ++ args).drop 8 = args from rfl, hmsg] at h
      cases h
    · rintro ⟨id, msg, hd, -⟩
      obtain ⟨_, _, h, -⟩ | ⟨_, h⟩ := connectCommand_cases args <;> cases h.symm.trans hd
  by_cases hsend : strncmp command (text "send ") 5 = true
  · obtain ⟨args, rfl⟩ := (strncmp_iff (by decide)).1 hsend
    obtain ⟨hip, hmsg⟩ := sendStores_spec args
    rw [if_neg hconnect, if_pos hsend, handleCommand_send]
    refine ⟨?_, hmsg⟩
    rw [show (text "send " ++ args).drop 5 = args from rfl, hip]
    exact Nat.zero_le _
  · rw [if_neg hconnect, if_neg hsend]
    refine ⟨Nat.zero_le _, fun h => absurd h (Nat.not_lt_zero _), ?_⟩
    rintro ⟨id, msg, hd, -⟩
    obtain ⟨args, rfl, -⟩ := handleCommand_send_iff.1 hd
    exact absurd ((strncmp_iff (by decide)).2 ⟨args, rfl⟩) hsend

/-! ### The main result -/

/-- **When what is scanned fits into the buffers.** -/
theorem scanned_fits_iff (line : List UInt8) :
    (stores (cutNewline line)).msg ≤ msgSize ∧ (stores (cutNewline line)).ip ≤ ipSize ↔
      ¬ LongMessage (lineText line) := by
  obtain ⟨hip, hmsg⟩ := stores_spec 0 (cutNewline line)
  rw [longMessage_iff 0 (newline_notMem_lineText line) (zero_notMem_lineText line),
    ← handle_lineText, ← hmsg, Nat.not_lt]
  exact and_iff_left hip

/-- A line with a message of 100 bytes, as `fgets` delivers it. -/
theorem scanned_too_long :
    let line := text "send 1 " ++ List.replicate 100 120 ++ [newline]
    fgets maxCmdLen line = some (line, []) ∧ (stores (cutNewline line)).msg = 101 ∧
      ¬ ((stores (cutNewline line)).msg ≤ msgSize ∧ (stores (cutNewline line)).ip ≤ ipSize) := by
  decide +kernel

end EmbeddedLinux.Chat
