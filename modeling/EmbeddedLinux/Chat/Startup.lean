import EmbeddedLinux.Chat.Commands
import EmbeddedLinux.Chat.Order
import EmbeddedLinux.Lib.Numeral

/-!
# The start of the chat program

`main` up to `handle_commands`: the argument is read as a number, the listening socket is
made, and the listener thread is started.  The number is kept in an `int`, and this is what
`chatapp_launch` and the command `myport` show.  The socket is bound to its low 16 bits, or if these
are 0 to a port of the kernel's choice.  So the port that is shown, as long as the program runs, is
the one that others can connect to only if it is from 1 to 65535 (`shown_port_bound_iff`).
-/

namespace EmbeddedLinux.Chat

open CString Stdio Transition

/-! ### The program -/

/-- What the system calls return: a value, or the error that `perror` tells. -/
structure Kernel where
  socket : Except (List UInt8) Nat
  bind : Except (List UInt8) Unit
  listen : Except (List UInt8) Unit
  pthreadCreate : Except (List UInt8) Unit
  /-- the port that is bound where no port is asked for -/
  ephemeral : UInt16

def perror (s e : List UInt8) : List UInt8 := s ++ text ": " ++ e ++ text "\n"

/-- The port number that the kernel makes of `htons(port)`. -/
def portNumber (port : Int) : UInt16 := UInt16.ofNat (port % 65536).toNat

/-- The port the socket is bound to, with `sin_port = htons(port)`. -/
def Kernel.bound (k : Kernel) (port : Int) : UInt16 :=
  if portNumber port = 0 then k.ephemeral else portNumber port

/-- The system calls of `chatapp_setup`; what `setsockopt` returns is not looked at.  The listening
socket, or what is printed to `stderr` before `exit(EXIT_FAILURE)`. -/
def setupSocket (k : Kernel) : Except (List UInt8) Nat :=
  match k.socket with
  | .error e => .error (perror (text "socket") e)
  | .ok fd =>
    match k.bind with
    | .error e => .error (perror (text "bind") e)
    | .ok () =>
      match k.listen with
      | .error e => .error (perror (text "listen") e)
      | .ok () => .ok fd

/-- The line of `chatapp_launch`. -/
def launchLine (port : Int) : List UInt8 :=
  text "[INFO] Listening on port " ++ decimal port ++ text "...\n"

def usageLine (argv : List (List UInt8)) : List UInt8 :=
  text "Usage: " ++ argv.head?.elim (text "(null)") cstr ++ text " <listening_port>\n"

/-- How far `main` comes. -/
inductive Startup
  /-- it ends with `EXIT_FAILURE`, and this is printed to `stdout` and to `stderr` -/
  | exited (out err : List UInt8)
  /-- `handle_commands` is called -/
  | running (out : List UInt8) (bound : UInt16) (state : State)

/-- `main`; `inherited` are the numbers that are open when it is called. -/
def chatMain (k : Kernel) (inherited : Int → Bool) (argv : List (List UInt8)) : Startup :=
  match argv with
  | [_, arg] =>
    let port := atoi arg
    match setupSocket k with
    | .error err => .exited [] err
    | .ok fd =>
      match k.pthreadCreate with
      | .error e => .exited (launchLine port) (perror (text "pthread_create listener") e)
      | .ok () => .running (launchLine port) (k.bound port) (initial port fd inherited)
  | argv => .exited (usageLine argv) []

/-! ### The number -/

variable {k : Kernel} {inherited : Int → Bool} {argv : List (List UInt8)} {arg out : List UInt8}
  {bound : UInt16} {s₀ s : State} {port : Int}

theorem toNat_portNumber (port : Int) : ((portNumber port).toNat : Int) = port % 65536 := by
  have hlt := Int.emod_lt_of_pos port (b := 65536) (by decide)
  have hpos := Int.emod_nonneg port (b := 65536) (by decide)
  rw [portNumber, UInt16.toNat_ofNat']
  omega

/-- **The port that is bound is the number** if that is a port. -/
theorem bound_eq_iff (hk : k.ephemeral ≠ 0) :
    ((k.bound port).toNat : Int) = port ↔ 1 ≤ port ∧ port ≤ 65535 := by
  have hnumber := toNat_portNumber port
  unfold Kernel.bound
  split
  · rename_i hzero
    -- the number is a multiple of 65536, and the kernel's choice is not
    have hpos : k.ephemeral.toNat ≠ 0 := fun h => hk (UInt16.toNat_inj.1 h)
    have hlt := k.ephemeral.toNat_lt
    rw [hzero] at hnumber
    change (0 : Int) = port % 65536 at hnumber
    omega
  · rename_i hne
    have hpos : (portNumber port).toNat ≠ 0 := fun h => hne (UInt16.toNat_inj.1 h)
    have hlt := (portNumber port).toNat_lt
    omega

/-! ### What is shown -/

/-- No locked section writes `server_port`. -/
theorem reply_serverPort (app : ChatApp) (op : Op) :
    (reply app op).app.serverPort = app.serverPort := by
  cases op with
  | addPeer fd ip port tid =>
    rcases chatappAddPeer_cases app fd ip port tid with ⟨-, h, -⟩ | ⟨i, -, -, -, -, h⟩
    · rw [reply, h]
    · rw [reply, h]
      rfl
  | disconnectPeer id =>
    simp only [reply, chatappDisconnectPeer]
    split <;> rfl
  | deregister fd =>
    simp only [reply, deregister]
    split <;> rfl
  | sendMessage id msg => rw [reply, chatappSendMessage_app]
  | _ => rfl

/-- Nor does any other step. -/
theorem serverPort_run (hr : Reachable step Any s₀ s) :
    s.app.serverPort = s₀.app.serverPort := by
  refine hr.invariant (P := fun s => s.app.serverPort = s₀.app.serverPort) rfl
    (fun t a u ht _ hn => ?_)
  obtain ⟨-, rfl⟩ := step_eq_some.1 hn
  rcases effect_app t a with h | ⟨op, h, -⟩
  · rw [h]
    exact ht
  · rw [h, reply_serverPort]
    exact ht

/-- `myport` -/
theorem handleCommands_myport (serverPort : Int) (rest : List UInt8) :
    handleCommands serverPort (text "myport" ++ newline :: rest) =
      .printf (text "Listening on port: " ++ decimal serverPort ++ [newline]) ::
        handleCommands serverPort rest := by
  have hd : handleCommand serverPort (cutNewline (text "myport" ++ [newline])) =
      .printf (text "Listening on port: " ++ decimal serverPort ++ [newline]) := rfl
  exact handleCommands_line (by decide) (by decide) hd (by simp) rest

/-- Where `main` gets to `handle_commands`. -/
theorem chatMain_running (h : chatMain k inherited argv = .running out bound s₀) :
    ∃ arg₀ arg fd, argv = [arg₀, arg] ∧ setupSocket k = .ok fd ∧ out = launchLine (atoi arg) ∧
      bound = k.bound (atoi arg) ∧ s₀ = initial (atoi arg) fd inherited := by
  unfold chatMain at h
  split at h
  · rename_i arg₀ arg
    simp only at h
    split at h
    · cases h
    · rename_i fd hfd
      split at h
      · cases h
      · cases h
        exact ⟨arg₀, arg, fd, rfl, hfd, rfl, rfl, rfl⟩
  · cases h

/-! ### The main result -/

/-- **The port that is shown.**  As long as the program runs, `myport` shows the port that
`chatapp_launch` has shown.  It is the one that the socket is bound to exactly when the argument
begins with a number that is, as an `int`, from 1 to 65535. -/
theorem shown_port_bound_iff (hk : k.ephemeral ≠ 0)
    (h : chatMain k inherited argv = .running out bound s₀) (hr : Reachable step Any s₀ s) :
    out = launchLine s.app.serverPort ∧
      (∀ rest, handleCommands s.app.serverPort (text "myport" ++ newline :: rest) =
        .printf (text "Listening on port: " ++ decimal s.app.serverPort ++ [newline]) ::
          handleCommands s.app.serverPort rest) ∧
      ((bound.toNat : Int) = s.app.serverPort ↔ ∃ arg₀ arg v rest, argv = [arg₀, arg] ∧
        NumeralAt (cstr arg) v rest ∧
          1 ≤ wrapInt (clampLong v) ∧ wrapInt (clampLong v) ≤ 65535) := by
  obtain ⟨arg₀, arg, fd, rfl, -, rfl, rfl, rfl⟩ := chatMain_running h
  have hport : s.app.serverPort = atoi arg := serverPort_run hr
  rw [hport]
  refine ⟨rfl, handleCommands_myport _, (bound_eq_iff hk).trans ⟨fun hle => ?_, fun hnum => ?_⟩⟩
  · obtain ⟨v, rest, hat, hval⟩ | ⟨-, hval⟩ := atoi_cases arg
    · rw [hval] at hle
      exact ⟨arg₀, arg, v, rest, rfl, hat, hle⟩
    · rw [hval] at hle
      omega
  · obtain ⟨arg₀', arg', v, rest, heq, hat, hle⟩ := hnum
    cases heq
    rw [atoi, strtol_of_numeralAt hat]
    exact hle

/-- The kernel of a machine on which nothing fails. -/
def working : Kernel :=
  { socket := .ok 3, bind := .ok (), listen := .ok (), pthreadCreate := .ok (), ephemeral := 40000 }

/-- `./chat 70000` shows a port that is none, also when a peer has connected. -/
theorem shown_port_bound_none :
    ∃ out s₀ s, chatMain working (fun _ => false) [text "./chat", text "70000"] =
      .running out 4464 s₀ ∧ Reachable step Any s₀ s ∧ (s.app.peers 0).active = true ∧
        out = text "[INFO] Listening on port 70000...\n" ∧
        ¬ ((4464 : UInt16).toNat : Int) = s.app.serverPort := by
  have hmain : chatMain working (fun _ => false) [text "./chat", text "70000"] =
      .running (launchLine 70000) 4464 (initial 70000 3 (fun _ => false)) := by
    simp only [chatMain, setupSocket, working]
    rfl
  have hstep : ∀ s a, Reachable step Any (initial 70000 3 (fun _ => false)) s → Enabled s a →
      Reachable step Any (initial 70000 3 (fun _ => false)) (effect s a) :=
    fun s a hr he => hr.step trivial (step_eq_some.2 ⟨he, rfl⟩)
  have h1 := hstep _ .check (.refl _) rfl
  have h2 := hstep _ .callAccept h1 rfl
  have h3 := hstep _ (.accept (text "10.0.0.2") 5000 (some 4)) h2 ⟨rfl, by decide, rfl⟩
  have h4 := hstep _ (.spawn .listener 0 true) h3 ⟨rfl, rfl⟩
  have h5 := hstep _ (.addPeer .listener 0) h4 ⟨rfl, rfl⟩
  obtain ⟨hout, -, -⟩ := shown_port_bound_iff (by decide) hmain h5
  exact ⟨_, _, _, hmain, h5, rfl, hout, fun heq => absurd heq (by decide)⟩

end EmbeddedLinux.Chat
