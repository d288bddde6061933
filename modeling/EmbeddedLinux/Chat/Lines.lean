import EmbeddedLinux.Chat.Grammar

/-!
# One line, one command

The input is a row of lines, each with a newline at its end.  `handle_commands` reads it with
`fgets`, which gives it a line in pieces of 255 bytes when it is longer, and each piece is
handled as a command of its own.  So the commands are the lines exactly when none of them has more
than 254 bytes, up to the first `exit` (`texts_eq_iff`); and they are dispatched with their
effects kept inside of the buffers when no message is too long for `msg`
(`one_line_one_command_iff`).
-/

namespace EmbeddedLinux.Chat

open CString Stdio

/-- The array `command` in each iteration of the loop. -/
def commandArrays (serverPort : Int) (input : List UInt8) : List (List UInt8) :=
  match h : fgets maxCmdLen input with
  | none => []
  | some (line, rest) =>
    have : rest.length < input.length := fgets_length (by decide) h
    if handleCommand serverPort (cutNewline line) = .closeAllConnections then [cutNewline line]
    else cutNewline line :: commandArrays serverPort rest
termination_by input.length

/-- The texts that are handled as commands. -/
def commandTexts (serverPort : Int) (input : List UInt8) : List (List UInt8) :=
  (commandArrays serverPort input).map cstr

/-- The lines of the input, one after the other. -/
def stream (lines : List (List UInt8)) : List UInt8 := lines.flatMap (fun l => l ++ [newline])

/-- The lines up to the first `exit`. -/
def uptoExit : List (List UInt8) → List (List UInt8)
  | [] => []
  | l :: ls => if l = text "exit" then [l] else l :: uptoExit ls

/-- A line handled as one command. -/
def handleLine (serverPort : Int) (l : List UInt8) : Dispatch := handleCommand serverPort (l ++ [0])

/-- A message that does not fit into `msg`. -/
def LongMessage (l : List UInt8) : Prop :=
  ∃ args rest v, l = text "send " ++ args ∧ NumeralAt args v rest ∧
    msgSize ≤ (rest.dropWhile isSpace).length

/-! ### The loop -/

variable {serverPort : Int} {input line rest l : List UInt8} {ls lines : List (List UInt8)}

theorem commandArrays_cons (h : fgets maxCmdLen input = some (line, rest)) :
    commandArrays serverPort input = cutNewline line ::
      if handleCommand serverPort (cutNewline line) = .closeAllConnections then []
      else commandArrays serverPort rest := by
  rw [commandArrays]
  split
  · rename_i hnone
    rw [h] at hnone
    cases hnone
  · rename_i line' rest' hsome
    rw [h] at hsome
    cases hsome
    split <;> rfl

/-- The dispatches are those of the arrays. -/
theorem handleCommands_eq (serverPort : Int) (input : List UInt8) :
    handleCommands serverPort input =
      (commandArrays serverPort input).map (handleCommand serverPort) := by
  induction hn : input.length using Nat.strong_induction_on generalizing input with
  | h n ih =>
    cases hf : fgets maxCmdLen input with
    | none =>
      have hnil : input = [] := by
        unfold fgets at hf
        split at hf
        · assumption
        · cases hf
      subst hnil
      rw [handleCommands, commandArrays]
      rfl
    | some r =>
      obtain ⟨line, rest⟩ := r
      have hlt : rest.length < n := hn ▸ fgets_length (by decide) hf
      rw [handleCommands_cons hf, commandArrays_cons hf, List.map_cons, ih _ hlt rest rfl]
      split <;> rfl

/-- What is behind the command word is the same string in both arrays. -/
theorem cstr_drop {c c' word : List UInt8} (h0 : 0 ∉ word) (h : cstr c = cstr c')
    (hw : strncmp c word word.length = true) :
    cstr (c.drop word.length) = cstr (c'.drop word.length) := by
  obtain ⟨args, rfl⟩ := (strncmp_iff h0).1 hw
  rw [cstr_append h0] at h
  obtain ⟨args', rfl, hargs⟩ := cstr_eq_append h.symm
  rw [List.drop_left, List.drop_left, hargs]

/-- A command is a C string: what stands behind it in the array does not matter. -/
theorem handleCommand_congr {c c' : List UInt8} (h : cstr c = cstr c') :
    handleCommand serverPort c = handleCommand serverPort c' := by
  have hcmp : ∀ w, strcmp c w = strcmp c' w := fun w => by rw [strcmp, strcmp, h]
  have hncmp : ∀ w n, strncmp c w n = strncmp c' w n := fun w n => by rw [strncmp, strncmp, h]
  -- the three commands with arguments look at the rest of the array
  have hconnect : strncmp c (text "connect ") 8 = true →
      connectCommand (c.drop 8) = connectCommand (c'.drop 8) := by
    intro hw
    unfold connectCommand sscanf
    rw [show cstr (c.drop 8) = cstr (c'.drop 8) from cstr_drop (by decide) h hw]
  have hsend : strncmp c (text "send ") 5 = true →
      sendCommand (c.drop 5) = sendCommand (c'.drop 5) := by
    intro hw
    unfold sendCommand sscanf
    rw [show cstr (c.drop 5) = cstr (c'.drop 5) from cstr_drop (by decide) h hw]
  have hterminate : strncmp c (text "terminate ") 10 = true →
      terminateCommand (c.drop 10) = terminateCommand (c'.drop 10) := by
    intro hw
    unfold terminateCommand sscanf
    rw [show cstr (c.drop 10) = cstr (c'.drop 10) from cstr_drop (by decide) h hw]
  unfold handleCommand
  simp only [← hcmp, ← hncmp]
  by_cases hc : strncmp c (text "connect ") 8 = true
  · simp only [hc, if_true, hconnect hc]
  by_cases hs : strncmp c (text "send ") 5 = true
  · simp only [hs, if_true, hsend hs, hc]
    rfl
  by_cases ht : strncmp c (text "terminate ") 10 = true
  · simp only [ht, if_true, hterminate ht, hc, hs]
    rfl
  · simp only [ht, hc, hs]
    rfl

/-! ### A line that fits -/

theorem stream_cons (l : List UInt8) (ls : List (List UInt8)) :
    stream (l :: ls) = l ++ newline :: stream ls := by
  rw [stream, List.flatMap_cons, List.append_assoc]
  rfl

/-- The array holds the line. -/
theorem handle_cutNewline (hnl : newline ∉ l) :
    handleCommand serverPort (cutNewline (l ++ [newline])) = handleLine serverPort l := by
  refine handleCommand_congr ?_
  rw [cstr_append_zero]
  exact cstr_cutNewline hnl

/-- Only `exit` ends the loop. -/
theorem handleLine_exit_iff (h0 : 0 ∉ l) :
    handleLine serverPort l = .closeAllConnections ↔ l = text "exit" := by
  constructor
  · intro h
    unfold handleLine at h
    obtain ⟨args, -, hd⟩ | ⟨args, -, hd⟩ | ⟨args, -, hd⟩ | hd :=
      handleCommand_cases serverPort (l ++ [0])
    · obtain ⟨_, _, h', -⟩ | ⟨_, h'⟩ := connectCommand_cases args <;>
        cases h.symm.trans (hd.trans h')
    · obtain ⟨_, _, h', -⟩ | ⟨_, h'⟩ := sendCommand_cases args <;>
        cases h.symm.trans (hd.trans h')
    · obtain ⟨_, h', -⟩ | ⟨_, h'⟩ := terminateCommand_cases args <;>
        cases h.symm.trans (hd.trans h')
    · obtain ⟨_, hd⟩ | hd | hd | ⟨-, hexit⟩ := hd
      · cases h.symm.trans hd
      · cases h.symm.trans hd
      · cases h.symm.trans hd
      · unfold strcmp at hexit
        rw [beq_iff_eq, cstr_append_zero, cstr_of_zero_notMem h0] at hexit
        exact hexit
  · rintro rfl
    rfl

theorem commandTexts_nil : commandTexts serverPort [] = [] := by
  rw [commandTexts, commandArrays]
  rfl

/-- A line that fits is one command. -/
theorem commandTexts_line (hnl : newline ∉ l) (h0 : 0 ∉ l) (hlen : l.length ≤ 254)
    (rest : List UInt8) : commandTexts serverPort (l ++ newline :: rest) =
      l :: if l = text "exit" then [] else commandTexts serverPort rest := by
  have hline := fgets_line (n := maxCmdLen) hnl (by show l.length + 1 < 256; omega) rest
  have hcut : cstr (cutNewline (l ++ [newline])) = l := by
    rw [cutNewline_line hnl h0, cstr_append_zero, cstr_of_zero_notMem h0]
  rw [commandTexts, commandArrays_cons hline, List.map_cons, hcut, handle_cutNewline hnl]
  simp only [handleLine_exit_iff h0]
  split <;> rfl

/-! ### A line that does not fit -/

/-- The front of a long line is a command, and the rest is read as if it were a line. -/
theorem commandTexts_long (hnl : newline ∉ l) (h0 : 0 ∉ l) (hlen : 255 ≤ l.length)
    (rest : List UInt8) : commandTexts serverPort (l ++ newline :: rest) =
      l.take 255 :: commandTexts serverPort (l.drop 255 ++ newline :: rest) := by
  have hfgets : fgets maxCmdLen (l ++ newline :: rest) =
      some (l.take 255, l.drop 255 ++ newline :: rest) := by
    rw [fgets, if_neg (by simp)]
    exact congrArg some (takeLine_long hnl hlen _)
  have hnl' : newline ∉ l.take 255 := fun h => hnl (List.mem_of_mem_take h)
  have h0' : 0 ∉ l.take 255 := fun h => h0 (List.mem_of_mem_take h)
  have hcut : cutNewline (l.take 255) = l.take 255 ++ [0] := cutNewline_piece hnl' h0'
  have hexit : handleCommand serverPort (cutNewline (l.take 255)) ≠ .closeAllConnections := by
    rw [hcut]
    intro h
    have := congrArg List.length ((handleLine_exit_iff h0').1 h)
    rw [List.length_take, Nat.min_eq_left hlen] at this
    cases this
  rw [commandTexts, commandArrays_cons hfgets, if_neg hexit, List.map_cons, hcut,
    cstr_append_zero, cstr_of_zero_notMem h0']
  rfl

/-! ### All lines -/

theorem mem_of_mem_uptoExit (h : l ∈ uptoExit lines) : l ∈ lines := by
  induction lines with
  | nil => exact h
  | cons x ls ih =>
    rw [uptoExit] at h
    split at h
    · rw [List.mem_singleton] at h
      exact h ▸ List.mem_cons_self
    · rcases List.mem_cons.1 h with rfl | h
      · exact List.mem_cons_self
      · exact List.mem_cons_of_mem _ (ih h)

/-- An empty command too many is never made up for. -/
theorem no_shift (ls : List (List UInt8)) :
    [] :: commandTexts serverPort (stream ls) ≠ uptoExit ls := by
  induction ls with
  | nil => exact List.cons_ne_nil _ _
  | cons l ls ih =>
    intro h
    rw [uptoExit] at h
    split at h
    · rename_i hexit
      rw [hexit] at h
      cases (List.cons.inj h).1
    · obtain ⟨hl, htail⟩ := List.cons.inj h
      rw [← hl, stream_cons,
        commandTexts_line (by decide) (by decide) (by decide), if_neg (by decide)] at htail
      exact ih htail

/-- **When the lines are the commands.** -/
theorem texts_eq_iff (hlines : ∀ l ∈ lines, newline ∉ l ∧ 0 ∉ l) :
    commandTexts serverPort (stream lines) = uptoExit lines ↔
      ∀ l ∈ uptoExit lines, l.length ≤ 254 := by
  induction lines with
  | nil => exact ⟨fun _ l hl => (by cases hl), fun _ => commandTexts_nil⟩
  | cons l ls ih =>
    obtain ⟨hnl, h0⟩ := hlines l List.mem_cons_self
    have ih' := ih (fun x hx => hlines x (List.mem_cons_of_mem _ hx))
    rw [stream_cons, uptoExit]
    by_cases hlen : l.length ≤ 254
    · rw [commandTexts_line hnl h0 hlen]
      split
      · simp [hlen]
      · rw [List.cons_inj_right, ih', List.forall_mem_cons]
        exact ⟨fun h => ⟨hlen, h⟩, fun h => h.2⟩
    · have hne : l ≠ text "exit" := by
        rintro rfl
        exact hlen (by decide)
      rw [commandTexts_long hnl h0 (by omega), if_neg hne]
      constructor
      · -- the front is the line only if that has 255 bytes, and then a newline is left
        intro h
        obtain ⟨hfront, htail⟩ := List.cons.inj h
        have hdrop : l.drop 255 = [] := by
          have := congrArg List.length hfront
          rw [List.length_take] at this
          exact List.drop_eq_nil_of_le (by omega)
        rw [hdrop, commandTexts_line (by decide) (by decide) (by decide),
          if_neg (by decide)] at htail
        exact absurd htail (no_shift ls)
      · intro h
        exact absurd (h l List.mem_cons_self) hlen

/-- A message that is too long is one that is handed on so. -/
theorem longMessage_iff (serverPort : Int) (hnl : newline ∉ l) (h0 : 0 ∉ l) :
    LongMessage l ↔ ∃ id msg, handleLine serverPort l = .sendMessage id msg ∧
      msgSize ≤ msg.length := by
  have hmsg : ∀ args v rest, l = text "send " ++ args → NumeralAt args v rest →
      cstr (rest.dropWhile isSpace) = rest.dropWhile isSpace := by
    rintro args v rest rfl ⟨ws, num, rfl, -⟩
    refine cstr_of_zero_notMem (fun h => h0 ?_)
    exact List.mem_append_right _ (List.mem_append_right _
      (List.mem_append_right _ ((List.dropWhile_sublist _).subset h)))
  simp only [← handle_cutNewline hnl, send_line_iff serverPort hnl]
  constructor
  · rintro ⟨args, rest, v, hl, hat, hlong⟩
    refine ⟨_, _, ⟨args, v, rest, hl, hat, rfl, rfl, ?_⟩, ?_⟩
    · rw [hmsg args v rest hl hat]
      intro hnil
      rw [hnil] at hlong
      cases hlong
    · rw [hmsg args v rest hl hat]
      exact hlong
  · rintro ⟨id, msg, ⟨args, v, rest, hl, hat, -, rfl, -⟩, hlong⟩
    rw [hmsg args v rest hl hat] at hlong
    exact ⟨args, rest, v, hl, hat, hlong⟩

/-- What is dispatched for the texts. -/
theorem handleCommands_texts (serverPort : Int) (input : List UInt8) :
    handleCommands serverPort input =
      (commandTexts serverPort input).map (handleLine serverPort) := by
  rw [handleCommands_eq, commandTexts, List.map_map]
  apply List.map_congr_left
  intro c _
  refine handleCommand_congr ?_
  rw [cstr_append_zero, cstr_of_zero_notMem (zero_notMem_cstr c)]

/-- The commands are the lines, they are dispatched one for one, and every message fits. -/
structure LineByLine (serverPort : Int) (lines : List (List UInt8)) : Prop where
  texts : commandTexts serverPort (stream lines) = uptoExit lines
  dispatches : handleCommands serverPort (stream lines) =
    (uptoExit lines).map (handleLine serverPort)
  fits : ∀ id msg, .sendMessage id msg ∈ handleCommands serverPort (stream lines) →
    msg.length < msgSize

/-- **When a line is a command.**  The lines up to the first `exit` are handled one by one exactly
when each of them has at most 254 bytes and no message is too long. -/
theorem one_line_one_command_iff (serverPort : Int)
    (hlines : ∀ l ∈ lines, newline ∉ l ∧ 0 ∉ l) :
    LineByLine serverPort lines ↔
      ∀ l ∈ uptoExit lines, l.length ≤ 254 ∧ ¬ LongMessage l := by
  have hspec : ∀ l ∈ uptoExit lines, newline ∉ l ∧ 0 ∉ l :=
    fun l hl => hlines l (mem_of_mem_uptoExit hl)
  constructor
  · rintro ⟨htexts, hdisp, hfits⟩ l hl
    refine ⟨(texts_eq_iff hlines).1 htexts l hl, fun hlong => ?_⟩
    obtain ⟨hnl, h0⟩ := hspec l hl
    obtain ⟨id, msg, hd, hlen⟩ := (longMessage_iff serverPort hnl h0).1 hlong
    have := hfits id msg (by
      rw [hdisp, ← hd]
      exact List.mem_map_of_mem hl)
    omega
  · intro h
    have htexts : commandTexts serverPort (stream lines) = uptoExit lines :=
      (texts_eq_iff hlines).2 (fun l hl => (h l hl).1)
    have hdisp : handleCommands serverPort (stream lines) =
        (uptoExit lines).map (handleLine serverPort) := by
      rw [handleCommands_texts, htexts]
    refine ⟨htexts, hdisp, fun id msg hmem => ?_⟩
    rw [hdisp, List.mem_map] at hmem
    obtain ⟨l, hl, hd⟩ := hmem
    obtain ⟨hnl, h0⟩ := hspec l hl
    by_contra hlen
    exact (h l hl).2 ((longMessage_iff serverPort hnl h0).2 ⟨id, msg, hd, by omega⟩)

/-- Three lines, of which the last is not reached. -/
theorem one_line_one_command_three : LineByLine 0 [text "list", text "exit", text "help"] := by
  refine (one_line_one_command_iff 0 (by decide)).2 (fun l hl => ?_)
  have hupto : uptoExit [text "list", text "exit", text "help"] = [text "list", text "exit"] := rfl
  rw [hupto, List.mem_cons, List.mem_singleton] at hl
  rcases hl with rfl | rfl
  · refine ⟨by decide, ?_⟩
    rintro ⟨args, rest, v, hargs, -⟩
    exact absurd (List.cons.inj hargs).1 (by decide)
  · refine ⟨by decide, ?_⟩
    rintro ⟨args, rest, v, hargs, -⟩
    exact absurd (List.cons.inj hargs).1 (by decide)

/-- A long line whose end is `exit`. -/
def longLine : List UInt8 := List.replicate 255 120 ++ text "exit"

/-- What is printed for a command that is not known. -/
def unknownCommand : Dispatch :=
  .printf (text "Unknown command. Type 'help' for a list of commands.\n")

/-- The end of the line ends the program, before it comes to the next line. -/
theorem tail_is_a_command : ¬ LineByLine 0 [longLine, text "list"] ∧
    handleCommands 0 (stream [longLine, text "list"]) = [unknownCommand, .closeAllConnections] ∧
      (uptoExit [longLine, text "list"]).map (handleLine 0) =
        [unknownCommand, .listConnections] := by
  have hnl : newline ∉ longLine := by
    rw [longLine, List.mem_append, List.mem_replicate, not_or]
    exact ⟨fun h => absurd h.2 (by decide), by decide⟩
  have h0 : 0 ∉ longLine := by
    rw [longLine, List.mem_append, List.mem_replicate, not_or]
    exact ⟨fun h => absurd h.2 (by decide), by decide⟩
  have hlen : longLine.length = 259 := by
    rw [longLine, List.length_append, List.length_replicate]
    rfl
  have hupto : uptoExit [longLine, text "list"] = [longLine, text "list"] := rfl
  have htexts : commandTexts 0 (stream [longLine, text "list"]) =
      [List.replicate 255 120, text "exit"] := by
    rw [stream_cons, commandTexts_long hnl h0 (by omega), longLine,
      List.take_left' List.length_replicate, List.drop_left' List.length_replicate,
      commandTexts_line (by decide) (by decide) (by decide), if_pos rfl]
  refine ⟨fun h => ?_, ?_, ?_⟩
  · have := h.texts
    rw [htexts, hupto] at this
    cases (List.cons.inj (List.cons.inj this).2).1
  · rw [handleCommands_texts, htexts]
    rfl
  · rw [hupto]
    rfl

end EmbeddedLinux.Chat
