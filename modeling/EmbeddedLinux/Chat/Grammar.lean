import EmbeddedLinux.Chat.Commands
import EmbeddedLinux.Lib.Numeral

/-!
# The grammar of the commands

The documented commands are `connect <ip> <port>`, `send <id> <message>` and `terminate <id>`.
`Documented body d` says that the line `body` has the form for the dispatch `d`, with
the arguments of `d`.  `handle_commands` is content with less: `%d` leaves what stands behind the
numeral and cuts its value to an `int`, `%63s` cuts a long word, and no separator is needed
behind a number or a word that was cut.  The lines on which this matters are `Misread`, and the
others are dispatched as documented (`arguments_read_iff`).

A message of 100 bytes or more is stored past the end of `msg`, and then anything may be
dispatched.
-/

namespace EmbeddedLinux.Chat

open CString Stdio

/-- `MAX_MSG_LEN`, the size of `msg` in `handle_commands`. -/
abbrev msgSize : Nat := 100

/-- What the next iteration may dispatch. -/
def MayDispatch (serverPort : Int) (input : List UInt8) (d : Dispatch) : Prop :=
  (handleCommands serverPort input).head? = some d ∨
    ∃ id msg, (handleCommands serverPort input).head? = some (.sendMessage id msg) ∧
      msgSize ≤ msg.length

/-- The line has the documented form, with these arguments. -/
def Documented (body : List UInt8) : Dispatch → Prop
  | .connectToPeer ip port =>
    ∃ ws args rest, body = text "connect " ++ (ws ++ (ip ++ args)) ∧ Blanks ws ∧ IsWord ip ∧
      StartsBlank args ∧ NumeralAt args port rest ∧ Blanks rest
  | .sendMessage id msg =>
    ∃ args rest, body = text "send " ++ args ∧ NumeralAt args id rest ∧ StartsBlank rest ∧
      msg = cstr (rest.dropWhile isSpace)
  | .terminateConnection id =>
    ∃ args rest, body = text "terminate " ++ args ∧ NumeralAt args id rest ∧ Blanks rest
  | _ => True

/-- The lines that are dispatched with other arguments, or with too much behind them. -/
inductive Misread : List UInt8 → Prop
  /-- a word, cut at 63 bytes, and a numeral -/
  | connect {ws ip args rest : List UInt8} {v : Int} : Blanks ws → IsWord ip → ip.length ≤ 63 →
      StartsBlank args ∨ ip.length = 63 → NumeralAt args v rest →
      ¬ (StartsBlank args ∧ IsInt v ∧ Blanks rest) →
      Misread (text "connect " ++ (ws ++ (ip ++ args)))
  /-- a numeral and a message -/
  | send {args rest : List UInt8} {v : Int} : NumeralAt args v rest →
      cstr (rest.dropWhile isSpace) ≠ [] →
      ¬ (StartsBlank rest ∧ IsInt v ∧ (cstr (rest.dropWhile isSpace)).length < msgSize) →
      Misread (text "send " ++ args)
  /-- a numeral -/
  | terminate {args rest : List UInt8} {v : Int} : NumeralAt args v rest →
      ¬ (IsInt v ∧ Blanks rest) → Misread (text "terminate " ++ args)

/-! ### Which lines are dispatched -/

variable {serverPort port id : Int} {command body ip msg : List UInt8} {d : Dispatch}

/-- The command word and the scan of what is behind it are the same for another array with the
same string. -/
theorem behind_cstr {word s s' : List UInt8} (h0 : 0 ∉ word) (h : cstr s = cstr s')
    {format : List Directive} {vs : List Value}
    (hs : ∃ args, s = word ++ args ∧ sscanf args format = vs) :
    ∃ args, s' = word ++ args ∧ sscanf args format = vs := by
  obtain ⟨args, rfl, hscan⟩ := hs
  rw [cstr_append h0] at h
  obtain ⟨args', hs', hcstr⟩ := cstr_eq_append h.symm
  refine ⟨args', hs', ?_⟩
  unfold sscanf at hscan ⊢
  rw [hcstr]
  exact hscan

/-- What each of the three commands can dispatch. -/
theorem connectCommand_cases (args : List UInt8) :
    (∃ ip port, connectCommand args = .connectToPeer ip port ∧
        sscanf args [.str 63, .space, .int] = [.str ip, .int port]) ∨
      ∃ out, connectCommand args = .printf out := by
  unfold connectCommand
  split
  · rename_i hscan
    exact Or.inl ⟨_, _, rfl, hscan⟩
  · exact Or.inr ⟨_, rfl⟩

theorem sendCommand_cases (args : List UInt8) :
    (∃ id msg, sendCommand args = .sendMessage id msg ∧
        sscanf args [.int, .space, .notIn [newline]] = [.int id, .str msg]) ∨
      ∃ out, sendCommand args = .printf out := by
  unfold sendCommand
  split
  · rename_i hscan
    exact Or.inl ⟨_, _, rfl, hscan⟩
  · exact Or.inr ⟨_, rfl⟩

theorem terminateCommand_cases (args : List UInt8) :
    (∃ id, terminateCommand args = .terminateConnection id ∧ sscanf args [.int] = [.int id]) ∨
      ∃ out, terminateCommand args = .printf out := by
  unfold terminateCommand
  split
  · rename_i hscan
    exact Or.inl ⟨_, rfl, hscan⟩
  · exact Or.inr ⟨_, rfl⟩

/-- The calls without arguments. -/
def Plain (command : List UInt8) (d : Dispatch) : Prop :=
  (∃ out, d = .printf out) ∨ d = .getLocalIp ∨ d = .listConnections ∨
    d = .closeAllConnections ∧ strcmp command (text "exit") = true

/-- The chain of tests. -/
theorem handleCommand_cases (serverPort : Int) (command : List UInt8) :
    (∃ args, command = text "connect " ++ args ∧
        handleCommand serverPort command = connectCommand args) ∨
      (∃ args, command = text "send " ++ args ∧
        handleCommand serverPort command = sendCommand args) ∨
      (∃ args, command = text "terminate " ++ args ∧
        handleCommand serverPort command = terminateCommand args) ∨
      Plain command (handleCommand serverPort command) := by
  by_cases hconnect : strncmp command (text "connect ") 8 = true
  · obtain ⟨args, rfl⟩ := (strncmp_iff (by decide)).1 hconnect
    exact Or.inl ⟨args, rfl, handleCommand_connect ..⟩
  by_cases hsend : strncmp command (text "send ") 5 = true
  · obtain ⟨args, rfl⟩ := (strncmp_iff (by decide)).1 hsend
    exact Or.inr (Or.inl ⟨args, rfl, handleCommand_send ..⟩)
  by_cases hterminate : strncmp command (text "terminate ") 10 = true
  · obtain ⟨args, rfl⟩ := (strncmp_iff (by decide)).1 hterminate
    exact Or.inr (Or.inr (Or.inl ⟨args, rfl, handleCommand_terminate ..⟩))
  refine Or.inr (Or.inr (Or.inr ?_))
  unfold handleCommand Plain
  rw [if_neg hconnect, if_neg hsend, if_neg hterminate]
  repeat' split
  all_goals simp
  assumption

theorem handleCommand_connect_iff : handleCommand serverPort command = .connectToPeer ip port ↔
    ∃ args, command = text "connect " ++ args ∧
      sscanf args [.str 63, .space, .int] = [.str ip, .int port] := by
  constructor
  · intro h
    obtain ⟨args, hc, hd⟩ | ⟨args, -, hd⟩ | ⟨args, -, hd⟩ | hd :=
      handleCommand_cases serverPort command
    · obtain ⟨_, _, h', hscan⟩ | ⟨_, h'⟩ := connectCommand_cases args
      · cases h.symm.trans (hd.trans h')
        exact ⟨args, hc, hscan⟩
      · cases h.symm.trans (hd.trans h')
    · obtain ⟨_, _, h', -⟩ | ⟨_, h'⟩ := sendCommand_cases args <;>
        cases h.symm.trans (hd.trans h')
    · obtain ⟨_, h', -⟩ | ⟨_, h'⟩ := terminateCommand_cases args <;>
        cases h.symm.trans (hd.trans h')
    · simp [Plain, h] at hd
  · rintro ⟨args, rfl, hscan⟩
    rw [handleCommand_connect, connectCommand, hscan]

theorem handleCommand_send_iff : handleCommand serverPort command = .sendMessage id msg ↔
    ∃ args, command = text "send " ++ args ∧
      sscanf args [.int, .space, .notIn [newline]] = [.int id, .str msg] := by
  constructor
  · intro h
    obtain ⟨args, -, hd⟩ | ⟨args, hc, hd⟩ | ⟨args, -, hd⟩ | hd :=
      handleCommand_cases serverPort command
    · obtain ⟨_, _, h', -⟩ | ⟨_, h'⟩ := connectCommand_cases args <;>
        cases h.symm.trans (hd.trans h')
    · obtain ⟨_, _, h', hscan⟩ | ⟨_, h'⟩ := sendCommand_cases args
      · cases h.symm.trans (hd.trans h')
        exact ⟨args, hc, hscan⟩
      · cases h.symm.trans (hd.trans h')
    · obtain ⟨_, h', -⟩ | ⟨_, h'⟩ := terminateCommand_cases args <;>
        cases h.symm.trans (hd.trans h')
    · simp [Plain, h] at hd
  · rintro ⟨args, rfl, hscan⟩
    rw [handleCommand_send, sendCommand, hscan]

theorem handleCommand_terminate_iff :
    handleCommand serverPort command = .terminateConnection id ↔
      ∃ args, command = text "terminate " ++ args ∧ sscanf args [.int] = [.int id] := by
  constructor
  · intro h
    obtain ⟨args, -, hd⟩ | ⟨args, -, hd⟩ | ⟨args, hc, hd⟩ | hd :=
      handleCommand_cases serverPort command
    · obtain ⟨_, _, h', -⟩ | ⟨_, h'⟩ := connectCommand_cases args <;>
        cases h.symm.trans (hd.trans h')
    · obtain ⟨_, _, h', -⟩ | ⟨_, h'⟩ := sendCommand_cases args <;>
        cases h.symm.trans (hd.trans h')
    · obtain ⟨_, h', hscan⟩ | ⟨_, h'⟩ := terminateCommand_cases args
      · cases h.symm.trans (hd.trans h')
        exact ⟨args, hc, hscan⟩
      · cases h.symm.trans (hd.trans h')
    · simp [Plain, h] at hd
  · rintro ⟨args, rfl, hscan⟩
    rw [handleCommand_terminate, terminateCommand, hscan]

/-! ### One line -/

/-- The first iteration on a line that fits. -/
theorem head_handleCommands (serverPort : Int) (hnl : newline ∉ body) (hlen : body.length ≤ 254)
    (rest : List UInt8) : (handleCommands serverPort (body ++ newline :: rest)).head? =
      some (handleCommand serverPort (cutNewline (body ++ [newline]))) := by
  have hline := fgets_line (n := maxCmdLen) hnl (by show body.length + 1 < 256; omega) rest
  rw [handleCommands_cons hline]
  rfl

/-- On a line the dispatch is the one on its bytes up to a NUL. -/
theorem connect_line_iff (serverPort : Int) (hnl : newline ∉ body) :
    handleCommand serverPort (cutNewline (body ++ [newline])) = .connectToPeer ip port ↔
      ∃ ws args v rest, body = text "connect " ++ (ws ++ (ip ++ args)) ∧ Blanks ws ∧ IsWord ip ∧
        ip.length ≤ 63 ∧ (StartsBlank args ∨ ip.length = 63) ∧ NumeralAt args v rest ∧
          port = wrapInt (clampLong v) := by
  have hcstr := cstr_cutNewline hnl
  rw [handleCommand_connect_iff]
  constructor
  · intro h
    obtain ⟨args, rfl, hscan⟩ := behind_cstr (by decide) hcstr h
    obtain ⟨ws, args', v, rest, rfl, hread⟩ := sscanf_str_int_iff.1 hscan
    exact ⟨ws, args', v, rest, rfl, hread⟩
  · rintro ⟨ws, args, v, rest, hbody, hscan⟩
    exact behind_cstr (by decide) hcstr.symm
      ⟨_, hbody, sscanf_str_int_iff.2 ⟨ws, args, v, rest, rfl, hscan⟩⟩

theorem send_line_iff (serverPort : Int) (hnl : newline ∉ body) :
    handleCommand serverPort (cutNewline (body ++ [newline])) = .sendMessage id msg ↔
      ∃ args v rest, body = text "send " ++ args ∧ NumeralAt args v rest ∧
        id = wrapInt (clampLong v) ∧ msg = cstr (rest.dropWhile isSpace) ∧ msg ≠ [] := by
  have hcstr := cstr_cutNewline hnl
  have hset : ∀ args, body = text "send " ++ args → ∀ x ∈ cstr args, x ∉ [newline] := by
    rintro args rfl x hx hmem
    rw [List.mem_singleton] at hmem
    exact hnl (List.mem_append_right _ ((List.takeWhile_sublist _).subset (hmem ▸ hx)))
  rw [handleCommand_send_iff]
  constructor
  · intro h
    obtain ⟨args, hbody, hscan⟩ := behind_cstr (by decide) hcstr h
    obtain ⟨v, rest, hscan⟩ := (sscanf_int_notIn_iff (hset args hbody)).1 hscan
    exact ⟨args, v, rest, hbody, hscan⟩
  · rintro ⟨args, v, rest, hbody, hscan⟩
    exact behind_cstr (by decide) hcstr.symm
      ⟨_, hbody, (sscanf_int_notIn_iff (hset args hbody)).2 ⟨v, rest, hscan⟩⟩

theorem terminate_line_iff (serverPort : Int) (hnl : newline ∉ body) :
    handleCommand serverPort (cutNewline (body ++ [newline])) = .terminateConnection id ↔
      ∃ args v rest, body = text "terminate " ++ args ∧ NumeralAt args v rest ∧
        id = wrapInt (clampLong v) := by
  have hcstr := cstr_cutNewline hnl
  rw [handleCommand_terminate_iff]
  constructor
  · intro h
    obtain ⟨args, hbody, hscan⟩ := behind_cstr (by decide) hcstr h
    obtain ⟨v, rest, hscan⟩ := sscanf_int_iff.1 hscan
    exact ⟨args, v, rest, hbody, hscan⟩
  · rintro ⟨args, v, rest, hbody, hscan⟩
    exact behind_cstr (by decide) hcstr.symm ⟨_, hbody, sscanf_int_iff.2 ⟨v, rest, hscan⟩⟩

/-! ### The main result -/

/-- The word behind white space is found in one way only. -/
theorem word_cancel {ws ws' args args' : List UInt8} (hws : Blanks ws) (hws' : Blanks ws')
    (hip : IsWord ip) (h : ws ++ (ip ++ args) = ws' ++ (ip ++ args')) : args = args' := by
  have hdrop := congrArg (List.dropWhile isSpace) h
  rw [dropWhile_blanks hws (hip.head args), dropWhile_blanks hws' (hip.head args')] at hdrop
  exact List.append_cancel_left hdrop

/-- A line that is misread has a dispatch that is not documented. -/
theorem Misread.undocumented (serverPort : Int) (hnl : newline ∉ body) (hlen : body.length ≤ 254)
    (rest : List UInt8) (h : Misread body) :
    ∃ d, MayDispatch serverPort (body ++ newline :: rest) d ∧ ¬ Documented body d := by
  have hhead := head_handleCommands serverPort hnl hlen rest
  cases h with
  | connect hws hip hshort hcut hat hbad =>
    have hd := (connect_line_iff serverPort hnl).2
      ⟨_, _, _, _, rfl, hws, hip, hshort, hcut, hat, rfl⟩
    refine ⟨_, Or.inl (hhead.trans (congrArg some hd)), ?_⟩
    rintro ⟨ws', args', rest', hbody, hws', -, hblank, hat', hrest'⟩
    obtain rfl := word_cancel hws hws' hip (List.append_cancel_left hbody)
    obtain ⟨hv, rfl⟩ := hat.unique hat'
    exact hbad ⟨hblank, wrapInt_eq_iff.1 hv.symm, hrest'⟩
  | @send args r v hat hne hbad =>
    have hd := (send_line_iff serverPort hnl).2
      ⟨_, _, _, rfl, hat, rfl, rfl, hne⟩
    by_cases hlong : msgSize ≤ (cstr (r.dropWhile isSpace)).length
    · -- anything may be dispatched, such as another command
      refine ⟨.terminateConnection 0,
        Or.inr ⟨_, _, hhead.trans (congrArg some hd), hlong⟩, ?_⟩
      rintro ⟨args', rest', hbody, -⟩
      exact absurd (List.cons.inj hbody).1 (by decide)
    · refine ⟨_, Or.inl (hhead.trans (congrArg some hd)), ?_⟩
      rintro ⟨args', rest', hbody, hat', hblank, -⟩
      obtain rfl := List.append_cancel_left hbody
      obtain ⟨hv, rfl⟩ := hat.unique hat'
      exact hbad ⟨hblank, wrapInt_eq_iff.1 hv.symm, Nat.lt_of_not_le hlong⟩
  | terminate hat hbad =>
    have hd := (terminate_line_iff serverPort hnl).2 ⟨_, _, _, rfl, hat, rfl⟩
    refine ⟨_, Or.inl (hhead.trans (congrArg some hd)), ?_⟩
    rintro ⟨args', rest', hbody, hat', hrest'⟩
    obtain rfl := List.append_cancel_left hbody
    obtain ⟨hv, rfl⟩ := hat.unique hat'
    exact hbad ⟨wrapInt_eq_iff.1 hv.symm, hrest'⟩

/-- The dispatch of a line that is not misread is documented. -/
theorem documented (hnl : newline ∉ body) (hmis : ¬ Misread body) :
    Documented body (handleCommand serverPort (cutNewline (body ++ [newline]))) := by
  cases hd : handleCommand serverPort (cutNewline (body ++ [newline])) with
  | connectToPeer ip port =>
    obtain ⟨ws, args, v, rest, rfl, hws, hip, hshort, hcut, hat, rfl⟩ :=
      (connect_line_iff serverPort hnl).1 hd
    by_cases hgood : StartsBlank args ∧ IsInt v ∧ Blanks rest
    · obtain ⟨hblank, hv, hrest⟩ := hgood
      refine ⟨ws, args, rest, rfl, hws, hip, hblank, ?_, hrest⟩
      rw [wrapInt_of_isInt hv]
      exact hat
    · exact absurd (.connect hws hip hshort hcut hat hgood) hmis
  | sendMessage id msg =>
    obtain ⟨args, v, rest, rfl, hat, rfl, rfl, hne⟩ := (send_line_iff serverPort hnl).1 hd
    by_cases hgood : StartsBlank rest ∧ IsInt v ∧ (cstr (rest.dropWhile isSpace)).length < msgSize
    · obtain ⟨hblank, hv, -⟩ := hgood
      refine ⟨args, rest, rfl, ?_, hblank, rfl⟩
      rw [wrapInt_of_isInt hv]
      exact hat
    · exact absurd (.send hat hne hgood) hmis
  | terminateConnection id =>
    obtain ⟨args, v, rest, rfl, hat, rfl⟩ := (terminate_line_iff serverPort hnl).1 hd
    by_cases hgood : IsInt v ∧ Blanks rest
    · obtain ⟨hv, hrest⟩ := hgood
      refine ⟨args, rest, rfl, ?_, hrest⟩
      rw [wrapInt_of_isInt hv]
      exact hat
    · exact absurd (.terminate hat hgood) hmis
  | _ => exact trivial

/-- A line that is not misread has no message that is too long. -/
theorem message_fits (hnl : newline ∉ body) (hmis : ¬ Misread body)
    (hd : handleCommand serverPort (cutNewline (body ++ [newline])) = .sendMessage id msg) :
    msg.length < msgSize := by
  obtain ⟨args, v, rest, rfl, hat, rfl, rfl, hne⟩ := (send_line_iff serverPort hnl).1 hd
  by_contra hlong
  exact hmis (.send hat hne (fun hgood => hlong hgood.2.2))

/-- **When the arguments are read as documented.**  A line of at most 254 bytes can only be
dispatched with the arguments that it has exactly when it is none of those that are misread. -/
theorem arguments_read_iff (serverPort : Int) (rest : List UInt8) (hnl : newline ∉ body)
    (hlen : body.length ≤ 254) :
    (∀ d, MayDispatch serverPort (body ++ newline :: rest) d → Documented body d) ↔
      ¬ Misread body := by
  have hhead := head_handleCommands serverPort hnl hlen rest
  constructor
  · intro hP hmis
    obtain ⟨d, hmay, hnot⟩ := hmis.undocumented serverPort hnl hlen rest
    exact hnot (hP d hmay)
  · rintro hmis d (hd | ⟨id, msg, hd, hlong⟩)
    · rw [hhead] at hd
      cases hd
      exact documented hnl hmis
    · rw [hhead] at hd
      have := message_fits hnl hmis (Option.some_inj.1 hd)
      omega

/-- A number, and white space behind it. -/
theorem arguments_read_terminate : ¬ Misread (text "terminate 5 ") ∧
    ∀ d, MayDispatch 0 (text "terminate 5 " ++ newline :: []) d →
      Documented (text "terminate 5 ") d := by
  have hmis : ¬ Misread (text "terminate 5 ") := by
    intro hmis
    generalize hbody : text "terminate 5 " = body at hmis
    cases hmis with
    | connect => exact absurd (List.cons.inj hbody).1 (by decide)
    | send => exact absurd (List.cons.inj hbody).1 (by decide)
    | terminate hat hbad =>
      have hargs := @List.append_cancel_left _ (text "terminate ") (text "5 ") _ hbody
      subst hargs
      have hfive : NumeralAt (text "5 ") 5 (text " ") := numeralAt_iff.2 rfl
      obtain ⟨rfl, rfl⟩ := hfive.unique hat
      refine hbad ⟨⟨by decide, by decide⟩, fun x hx => ?_⟩
      rw [show x = 32 from List.mem_singleton.1 hx]
      rfl
  exact ⟨hmis, (arguments_read_iff 0 [] (by decide) (by decide)).2 hmis⟩

/-- What stands behind the number is not seen. -/
theorem junk_not_seen : ∃ d, MayDispatch 0 (text "terminate 5abc" ++ newline :: []) d ∧
    ¬ Documented (text "terminate 5abc") d := by
  have hfive : NumeralAt (text "5abc") 5 (text "abc") := numeralAt_iff.2 rfl
  refine ⟨.terminateConnection 5, Or.inl ?_, ?_⟩
  · rw [head_handleCommands 0 (by decide) (by decide)]
    rfl
  · rintro ⟨args, rest, hbody, hat, hrest⟩
    have hargs := @List.append_cancel_left _ (text "terminate ") (text "5abc") _ hbody
    subst hargs
    obtain ⟨-, rfl⟩ := hfive.unique hat
    cases hrest 97 (by decide)

end EmbeddedLinux.Chat
