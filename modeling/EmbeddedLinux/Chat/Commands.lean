import EmbeddedLinux.Lib.Stdio

/-!
# The commands of the chat program

`handle_commands` reads standard input with `fgets` into 256 bytes, cuts the
line at its newline, and takes the command apart with `strcmp`, `strncmp` and `sscanf`.
The functions it calls are not in the repository; an iteration of its loop is what it calls
or prints, a `Dispatch`.  At the end of its input it reads on for ever and dispatches
nothing more.  `app` is read for `myport` only.

What a program or a user writes for `send`, `connect` and `terminate`, with
numbers in decimal and single blanks, is dispatched as it was meant:
`commands_dispatched`.
-/

namespace EmbeddedLinux.Chat

open CString Stdio

/-- `MAX_CMD_LEN` -/
abbrev maxCmdLen : Nat := 256

/-- What an iteration does after its prompt.  `closeAllConnections` ends the program. -/
inductive Dispatch
  | printf (out : List UInt8)
  | getLocalIp
  | connectToPeer (ip : List UInt8) (port : Int)
  | listConnections
  | sendMessage (id : Int) (msg : List UInt8)
  | terminateConnection (id : Int)
  | closeAllConnections
  deriving DecidableEq

def printHelp : List UInt8 :=
  text "Available commands:\n" ++
  text "help                         : Display this help message\n" ++
  text "myip                         : Display the IP address of this process\n" ++
  text "myport                       : Display the port on which this process is listening\n" ++
  text "connect <destination> <port> : Connect to the specified IP and port\n" ++
  text "list                         : List all active connections\n" ++
  text "send <connection id> <msg>   : Send a message to a specific connection\n" ++
  text "terminate <connection id>    : Terminate a specific connection\n" ++
  text "exit                         : Close all connections and terminate the program\n"

/-- `connect`, on what follows it. -/
def connectCommand (args : List UInt8) : Dispatch :=
  match sscanf args [.str 63, .space, .int] with
  | [.str ip, .int port] => .connectToPeer ip port
  | _ => .printf (text "Usage: connect <destination> <port>\n")

/-- `send`, on what follows it.  The length of what is stored in `msg` is not looked at. -/
def sendCommand (args : List UInt8) : Dispatch :=
  match sscanf args [.int, .space, .notIn [newline]] with
  | [.int id, .str msg] => .sendMessage id msg
  | _ => .printf (text "Usage: send <connection id> <message>\n")

/-- `terminate`, on what follows it. -/
def terminateCommand (args : List UInt8) : Dispatch :=
  match sscanf args [.int] with
  | [.int id] => .terminateConnection id
  | _ => .printf (text "Usage: terminate <connection id>\n")

/-- The chain of tests on `command`. -/
def handleCommand (serverPort : Int) (command : List UInt8) : Dispatch :=
  if strcmp command (text "help") then .printf printHelp
  else if strcmp command (text "myip") then .getLocalIp
  else if strcmp command (text "myport") then
    .printf (text "Listening on port: " ++ decimal serverPort ++ [newline])
  else if strncmp command (text "connect ") 8 then connectCommand (command.drop 8)
  else if strcmp command (text "list") then .listConnections
  else if strncmp command (text "send ") 5 then sendCommand (command.drop 5)
  else if strncmp command (text "terminate ") 10 then terminateCommand (command.drop 10)
  else if strcmp command (text "exit") then .closeAllConnections
  else .printf (text "Unknown command. Type 'help' for a list of commands.\n")

/-- The loop: what is dispatched for the input, iteration by iteration. -/
def handleCommands (serverPort : Int) (input : List UInt8) : List Dispatch :=
  match h : fgets maxCmdLen input with
  | none => []
  | some (line, rest) =>
    have : rest.length < input.length := fgets_length (by decide) h
    match handleCommand serverPort (cutNewline line) with
    | .closeAllConnections => [.closeAllConnections]
    | d => d :: handleCommands serverPort rest
termination_by input.length

/-! ### One line -/

/-- An iteration, and those after it. -/
theorem handleCommands_cons {serverPort : Int} {input line rest : List UInt8}
    (h : fgets maxCmdLen input = some (line, rest)) :
    handleCommands serverPort input = handleCommand serverPort (cutNewline line) ::
      if handleCommand serverPort (cutNewline line) = .closeAllConnections then []
      else handleCommands serverPort rest := by
  rw [handleCommands]
  split
  · rename_i hnone
    rw [h] at hnone
    cases hnone
  · rename_i line' rest' hsome
    rw [h] at hsome
    cases hsome
    split
    · rename_i hexit
      rw [hexit, if_pos rfl]
    · rename_i hexit
      rw [if_neg hexit]

/-- A line that fits is one iteration. -/
theorem handleCommands_line {serverPort : Int} {body : List UInt8} (h : newline ∉ body)
    (hlen : body.length + 1 < maxCmdLen) {d : Dispatch}
    (hd : handleCommand serverPort (cutNewline (body ++ [newline])) = d)
    (hexit : d ≠ .closeAllConnections) (rest : List UInt8) :
    handleCommands serverPort (body ++ newline :: rest) =
      d :: handleCommands serverPort rest := by
  rw [handleCommands_cons (fgets_line h hlen rest), hd, if_neg hexit]

theorem handleCommand_send (serverPort : Int) (args : List UInt8) :
    handleCommand serverPort (text "send " ++ args) = sendCommand args := rfl

theorem handleCommand_connect (serverPort : Int) (args : List UInt8) :
    handleCommand serverPort (text "connect " ++ args) = connectCommand args := rfl

theorem handleCommand_terminate (serverPort : Int) (args : List UInt8) :
    handleCommand serverPort (text "terminate " ++ args) = terminateCommand args := rfl

theorem cstr_args {args : List UInt8} (h0 : 0 ∉ args) : cstr (args ++ [0, 0]) = args := by
  rw [cstr_append_zero, cstr_of_zero_notMem h0]

/-- A command word, its arguments, and a newline. -/
theorem handleCommands_args {serverPort : Int} {word args : List UInt8} {d : Dispatch}
    (hword : newline ∉ word ∧ 0 ∉ word ∧ word.length ≤ 10)
    (hargs : newline ∉ args ∧ 0 ∉ args ∧ args.length ≤ 200)
    (hd : handleCommand serverPort (word ++ (args ++ [0, 0])) = d)
    (hexit : d ≠ .closeAllConnections) (rest : List UInt8) :
    handleCommands serverPort (word ++ args ++ newline :: rest) =
      d :: handleCommands serverPort rest := by
  have hnl : newline ∉ word ++ args := by
    rw [List.mem_append, not_or]
    exact ⟨hword.1, hargs.1⟩
  have h0 : 0 ∉ word ++ args := by
    rw [List.mem_append, not_or]
    exact ⟨hword.2.1, hargs.2.1⟩
  have hlen : (word ++ args).length + 1 < maxCmdLen := by
    rw [List.length_append]
    show word.length + args.length + 1 < 256
    omega
  refine handleCommands_line hnl hlen ?_ hexit rest
  rw [cutNewline_line hnl h0, List.append_assoc]
  exact hd

/-! ### The arguments -/

/-- A text that can be sent. -/
def IsMessage (msg : List UInt8) : Prop :=
  1 ≤ msg.length ∧ msg.length ≤ 99 ∧ newline ∉ msg ∧ 0 ∉ msg ∧
    ∀ x ∈ msg.head?, isSpace x = false

/-- A destination in one word. -/
def IsDestination (ip : List UInt8) : Prop :=
  1 ≤ ip.length ∧ ip.length ≤ 63 ∧ 0 ∉ ip ∧ ∀ x ∈ ip, isSpace x = false

def blank : UInt8 := 32

/-- A number has no byte that ends a line or a string. -/
theorem notMem_decimal (n : Int) : newline ∉ decimal n ∧ 0 ∉ decimal n := by
  constructor
  · intro h
    rcases mem_decimal h with h | h <;> cases h
  · intro h
    rcases mem_decimal h with h | h <;> cases h

theorem endsNumeral_blank (rest : List UInt8) : EndsNumeral (blank :: rest) := by
  intro x hx
  cases hx
  rfl

/-- A number at the end of the text. -/
theorem scan_int {n : Int} (hn : IsInt n) : scan [.int] (decimal n) = [.int n] := by
  have h : scan [.int] (decimal n ++ []) = .int n :: scan [] [] :=
    scan_int_decimal hn (fun x hx => by cases hx) []
  rwa [List.append_nil] at h

theorem terminateCommand_args {id : Int} (hid : IsInt id) :
    terminateCommand (decimal id ++ [0, 0]) = .terminateConnection id := by
  rw [terminateCommand, sscanf, cstr_args (notMem_decimal id).2, scan_int hid]

theorem sendCommand_args {id : Int} {msg : List UInt8} (hid : IsInt id) (hmsg : IsMessage msg) :
    sendCommand (decimal id ++ blank :: msg ++ [0, 0]) = .sendMessage id msg := by
  obtain ⟨hpos, -, hnl, h0, hhead⟩ := hmsg
  have h0' : 0 ∉ decimal id ++ blank :: msg := by
    rw [List.mem_append, List.mem_cons, not_or, not_or]
    exact ⟨(notMem_decimal id).2, by decide, h0⟩
  have hset : ∀ x ∈ msg, x ∉ [newline] := by
    intro x hx hmem
    rw [List.mem_singleton] at hmem
    exact hnl (hmem ▸ hx)
  rw [sendCommand, sscanf, cstr_args h0', scan_int_decimal hid (endsNumeral_blank msg),
    scan_space_notIn (List.ne_nil_of_length_pos hpos) hset hhead rfl, scan]

theorem connectCommand_args {ip : List UInt8} {port : Int} (hip : IsDestination ip)
    (hport : IsInt port) :
    connectCommand (ip ++ blank :: decimal port ++ [0, 0]) = .connectToPeer ip port := by
  obtain ⟨hpos, hlen, h0, hspace⟩ := hip
  have h0' : 0 ∉ ip ++ blank :: decimal port := by
    rw [List.mem_append, List.mem_cons, not_or, not_or]
    exact ⟨h0, by decide, (notMem_decimal port).2⟩
  have hskip : scan [.int] (blank :: decimal port) = scan [.int] (decimal port) := rfl
  rw [connectCommand, sscanf, cstr_args h0',
    scan_str (List.ne_nil_of_length_pos hpos) hspace hlen rfl, scan_space_int, hskip,
    scan_int hport]

/-! ### The main result -/

theorem notMem_blank {x : UInt8} (hx : x ≠ blank) {a b : List UInt8} (ha : x ∉ a) (hb : x ∉ b) :
    x ∉ a ++ blank :: b := by
  rw [List.mem_append, List.mem_cons, not_or, not_or]
  exact ⟨ha, hx, hb⟩

theorem length_blank (a b : List UInt8) : (a ++ blank :: b).length = a.length + b.length + 1 := by
  rw [List.length_append, List.length_cons, Nat.add_assoc]

/-- **Well-formed commands mean what they say.**  Whatever follows them on the input, the line
is one iteration of the loop, which calls the function that was asked for with the
arguments that were written. -/
theorem commands_dispatched (serverPort : Int) (rest : List UInt8) :
    (∀ id msg, IsInt id → IsMessage msg →
      handleCommands serverPort
          (text "send " ++ (decimal id ++ text " " ++ msg) ++ text "\n" ++ rest) =
        .sendMessage id msg :: handleCommands serverPort rest) ∧
    (∀ ip port, IsDestination ip → IsInt port →
      handleCommands serverPort
          (text "connect " ++ (ip ++ text " " ++ decimal port) ++ text "\n" ++ rest) =
        .connectToPeer ip port :: handleCommands serverPort rest) ∧
    ∀ id, IsInt id →
      handleCommands serverPort (text "terminate " ++ decimal id ++ text "\n" ++ rest) =
        .terminateConnection id :: handleCommands serverPort rest := by
  have hblank : ∀ a b : List UInt8, a ++ text " " ++ b = a ++ blank :: b :=
    fun a b => List.append_assoc a [blank] b
  have hnewline : ∀ a : List UInt8, a ++ text "\n" ++ rest = a ++ newline :: rest :=
    fun a => List.append_assoc a [newline] rest
  refine ⟨?_, ?_, ?_⟩
  · intro id msg hid hmsg
    have hlen := length_decimal hid
    have hdec := notMem_decimal id
    have hsend := (handleCommand_send serverPort _).trans (sendCommand_args hid hmsg)
    obtain ⟨-, h99, hnl, h0, -⟩ := hmsg
    rw [hblank, hnewline]
    refine handleCommands_args (by decide) ⟨?_, ?_, ?_⟩ hsend (by simp) rest
    · exact notMem_blank (by decide) hdec.1 hnl
    · exact notMem_blank (by decide) hdec.2 h0
    · rw [length_blank]
      omega
  · intro ip port hip hport
    have hlen := length_decimal hport
    have hdec := notMem_decimal port
    have hconnect := (handleCommand_connect serverPort _).trans (connectCommand_args hip hport)
    obtain ⟨-, h63, h0, hspace⟩ := hip
    have hnl : newline ∉ ip := by
      intro h
      cases (hspace newline h).symm.trans rfl
    rw [hblank, hnewline]
    refine handleCommands_args (by decide) ⟨?_, ?_, ?_⟩ hconnect (by simp) rest
    · exact notMem_blank (by decide) hnl hdec.1
    · exact notMem_blank (by decide) h0 hdec.2
    · rw [length_blank]
      omega
  · intro id hid
    have hlen := length_decimal hid
    have hdec := notMem_decimal id
    have hterminate :=
      (handleCommand_terminate serverPort _).trans (terminateCommand_args hid)
    rw [hnewline]
    exact handleCommands_args (by decide) ⟨hdec.1, hdec.2, by omega⟩ hterminate (by simp) rest

/-- The smallest number, and a message that looks like a command. -/
theorem commands_dispatched_nested :
    handleCommands 0 (text "send " ++ (decimal (-2147483648) ++ text " " ++ text "send 1 2") ++
        text "\n" ++ []) = [.sendMessage (-2147483648) (text "send 1 2")] ∧
      handleCommands 0 (text "connect " ++ (text "10.0.0.1" ++ text " " ++ decimal 5000) ++
        text "\n" ++ []) = [.connectToPeer (text "10.0.0.1") 5000] ∧
      handleCommands 0 (text "terminate " ++ decimal 7 ++ text "\n" ++ []) =
        [.terminateConnection 7] := by
  have hnil : handleCommands 0 [] = [] := by
    rw [handleCommands]
    rfl
  obtain ⟨hsend, hconnect, hterminate⟩ := commands_dispatched 0 []
  rw [hnil] at hsend hconnect hterminate
  refine ⟨hsend _ _ ?_ ?_, hconnect _ _ ?_ ?_, hterminate _ ?_⟩
  · unfold IsInt
    decide
  · refine ⟨by decide, by decide, by decide, by decide, fun x hx => ?_⟩
    cases hx
    rfl
  · refine ⟨by decide, by decide, by decide, fun x hx => ?_⟩
    have hall : (text "10.0.0.1").all (fun x => !isSpace x) = true := by decide
    simpa using List.all_eq_true.1 hall x hx
  · unfold IsInt
    decide
  · unfold IsInt
    decide

end EmbeddedLinux.Chat
