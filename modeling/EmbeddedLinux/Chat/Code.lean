import EmbeddedLinux.Chat.Stream
import EmbeddedLinux.Lib.Locking

/-!
# The code of the chat program, statement by statement

`chatapp.c` as programs of `Locking`, for the main thread, the `listen_thread` and the
`peer_handle_thread`s.  A `read` is an expression over the table, a `set` an
assignment to it.  The other statements are calls, and what they return is up to the
environment: which descriptors are open, and what arrives on them, is not in this
model.  A `pthread_create` gives a number that no thread has, and a `pthread_cancel` leaves a
request.  Allocations that no branch depends on, and `memset` and `free`, are left out.

The main thread calls the operations in any order, with any arguments; what it calls is the
result of its statement `command`.  `chatapp_shutdown` ends before
`pthread_mutex_destroy`.
-/

namespace EmbeddedLinux.Chat

open CString Locking

/-- What a call of `recv` may put into the buffer. -/
abbrev Received := { b : List UInt8 // b.length ≤ maxMsgLen }

/-- The numbers handlers have are those `pthread_create` gives. -/
inductive ThreadId
  | main
  | listener
  | handler (tid : Tid)
  deriving DecidableEq

/-- Loop heads and the start of a handler. -/
inductive Label
  | main
  | listenThread
  | peerHandleThread (sockfd : Int)
  | receive (sockfd : Int)

/-- What the main thread calls. -/
inductive Command
  | connectPeer (ip : List UInt8) (port : Int)
  | listPeers
  | sendMessage (id : Int) (msg : List UInt8)
  | disconnectPeer (id : Int)
  | shutdown

inductive Stmt : Type 1
  | read {α : Type} (f : ChatApp → α)
  | set (f : ChatApp → ChatApp)
  | printf (out : List UInt8)
  | perror (s : List UInt8)
  | fflush
  | close (fd : Int)
  /-- `close(app->listener_socket)` -/
  | closeListener
  | socket
  | inetPton (ip : List UInt8)
  | connect (fd : Int) (port : Int)
  | accept
  | send (fd : Int) (msg : List UInt8)
  | recv (fd : Int)
  | malloc
  /-- of `peer_handle_thread`, for the descriptor -/
  | pthreadCreate (sockfd : Int)
  | pthreadCancel (tid : Tid)
  /-- of the listener -/
  | pthreadJoin
  | command

/-- What a statement gives: `none` is a failure, and for `recv` an `n <= 0`. -/
@[reducible] def Res : Stmt → Type
  | .read (α := α) _ => α
  | .socket => Option Int
  | .inetPton _ | .connect _ _ | .malloc => Bool
  | .accept => Option (Int × List UInt8 × Int)
  | .recv _ => Option Received
  | .pthreadCreate _ => Option Tid
  | .command => Command
  | _ => Unit

abbrev Code := Prog Stmt Res Label

namespace Code

/-- `for (int i = 0; i < MAX_PEERS; i++)` -/
def forPeers (body : Fin maxPeers → Code → Code) (k : Code) : Code :=
  Prog.forEach body (List.finRange maxPeers) k

/-- `if` on an expression over the table. -/
def test (f : ChatApp → Bool) (yes no : Code) : Code :=
  .stmt (.read f) fun b => if b then yes else no

/-- A statement that gives nothing. -/
def run (x : Stmt) (k : Code) : Code := .stmt x fun _ => k

def printf (s : String) (k : Code) : Code := run (.printf (text s)) k

def perror (s : String) (k : Code) : Code := run (.perror (text s)) k

/-! ### The operations, with what is done with the value they return -/

def chatappAddPeer (sockfd : Int) (ip : List UInt8) (port : Int) (tid : Tid) (k : Int → Code) :
    Code :=
  .lock <|
  test (fun app => app.nextPeerId > intMax - 1)
    (printf "[-] Peer ID limit reached.\n" <| .unlock <| k (-1)) <|
  forPeers
    (fun i next =>
      test (fun app => !(app.peers i).active)
        (run (.set fun app =>
          { app.setPeer i (peerSet (app.peers i) app.nextPeerId sockfd ip port tid) with
            nextPeerId := app.nextPeerId + 1 }) <|
        .stmt (.read fun app => (app.peers i).id) fun id => .unlock <| k id)
        next) <|
  .unlock <| k (-1)

def chatappConnectPeer (ip : List UInt8) (port : Int) (k : Int → Code) : Code :=
  .stmt .socket fun
  | none => perror "socket" <| k (-1)
  | some sockfd =>
    .stmt (.inetPton ip) fun
    | false => printf "Invalid IP address\n" <| run (.close sockfd) <| k (-1)
    | true =>
      .stmt (.connect sockfd port) fun
      | false => perror "connect" <| run (.close sockfd) <| k (-1)
      | true =>
        run (.printf (text "[+] Connected to " ++ ip ++ text ":" ++ decimal port ++ text "\n")) <|
        .stmt .malloc fun
        | false => perror "malloc" <| run (.close sockfd) <| k (-1)
        | true =>
          .stmt (.pthreadCreate sockfd) fun
          | none => perror "pthread_create connect" <| run (.close sockfd) <| k (-1)
          | some tid =>
            chatappAddPeer sockfd ip port tid fun id =>
            if id = -1 then
              printf "[-] Connection list full.\n" <| run (.close sockfd) <|
              run (.pthreadCancel tid) <| k (-1)
            else
              run (.printf (text "[ID " ++ decimal id ++ text "] Connection established.\n")) <|
              k id

def chatappListPeers (k : Code) : Code :=
  printf "ID\tIP Address\tPort\n" <|
  .lock <|
  forPeers
    (fun i next =>
      test (fun app => (app.peers i).active)
        (.stmt (.read fun app => peerLine (app.peers i)) fun line => run (.printf line) next)
        next) <|
  .unlock k

def chatappSendMessage (id : Int) (msg : List UInt8) (k : Int → Code) : Code :=
  .lock <|
  forPeers
    (fun i next =>
      test (fun app => (app.peers i).hasId id)
        (.stmt (.read fun app => (app.peers i).sockfd) fun fd =>
          run (.send fd (cstr msg)) <| .unlock <| k 0)
        next) <|
  .unlock <|
  run (.printf (text "[-] No such connection ID " ++ decimal id ++ text "\n")) <| k (-1)

def chatappDisconnectPeer (id : Int) (k : Int → Code) : Code :=
  .lock <|
  forPeers
    (fun i next =>
      test (fun app => (app.peers i).hasId id)
        (.stmt (.read fun app => (app.peers i).sockfd) fun fd =>
          run (.close fd) <|
          .stmt (.read fun app => (app.peers i).threadId) fun tid =>
          run (.pthreadCancel tid) <|
          run (.set fun app => app.setPeer i (app.peers i).clear) <|
          run (.printf (text "[x] Terminated connection ID " ++ decimal id ++ text "\n")) <|
          .unlock <| k 0)
        next) <|
  .unlock <|
  run (.printf (text "[-] ID " ++ decimal id ++ text " not found\n")) <| k (-1)

/-- Up to `pthread_mutex_destroy`. -/
def chatappShutdown (k : Code) : Code :=
  .lock <| run (.set fun app => { app with running := false }) <| .unlock <|
  run .closeListener <|
  run .pthreadJoin <|
  .lock <|
  forPeers
    (fun i next =>
      test (fun app => (app.peers i).active)
        (.stmt (.read fun app => (app.peers i).sockfd) fun fd =>
          run (.close fd) <|
          .stmt (.read fun app => (app.peers i).threadId) fun tid =>
          run (.pthreadCancel tid) <|
          run (.set fun app => app.setPeer i (app.peers i).clear) next)
        next) <|
  .unlock k

/-- The exit path of a handler, from `pthread_mutex_lock` to the unlocking. -/
def deregister (sockfd : Int) (k : Code) : Code :=
  .lock <|
  forPeers
    (fun i next =>
      test (fun app => (app.peers i).hasSockfd sockfd)
        (run (.set fun app => app.setPeer i (app.peers i).clear) <| .unlock k)
        next) <|
  .unlock k

/-! ### The threads -/

/-- `peer_cleanup` -/
def peerCleanup (sockfd : Int) : List Stmt := if 0 ≤ sockfd then [.close sockfd] else []

/-- A call of the main thread. -/
def call : Command → Code
  | .connectPeer ip port => chatappConnectPeer ip port fun _ => .goto .main
  | .listPeers => chatappListPeers (.goto .main)
  | .sendMessage id msg => chatappSendMessage id msg fun _ => .goto .main
  | .disconnectPeer id => chatappDisconnectPeer id fun _ => .goto .main
  | .shutdown => chatappShutdown .exit

/-- The loop of `listen_thread`. -/
def listenThread : Code :=
  .lock <| .stmt (.read fun app => app.running) fun keepRunning => .unlock <|
  if !keepRunning then .exit
  else
    .stmt .accept fun
    | none => perror "accept" <| .goto .listenThread
    | some (peerSock, ip, port) =>
      run (.printf (text "\n[+] New incoming connection from " ++ ip ++ text ":" ++
        decimal port ++ text "\n")) <|
      .stmt .malloc fun
      | false => perror "malloc" <| run (.close peerSock) <| .goto .listenThread
      | true =>
        .stmt (.pthreadCreate peerSock) fun
        | none => perror "pthread_create peer" <| run (.close peerSock) <| .goto .listenThread
        | some tid =>
          chatappAddPeer peerSock ip port tid fun id =>
          if id = -1 then
            printf "[-] Connection limit reached.\n" <| run (.close peerSock) <|
            run (.pthreadCancel tid) <| .goto .listenThread
          else
            run (.printf (text "[ID " ++ decimal id ++ text "] Connection accepted.\n")) <|
            .goto .listenThread

/-- The loop of `peer_handle_thread`. -/
def receive (sockfd : Int) : Code :=
  .stmt (.recv sockfd) fun
  | none =>
    printf "[-] A peer disconnected.\n" <|
    deregister sockfd <|
    run (.close sockfd) <|
    .pop .exit
  | some b => run (.printf (display b.1 b.2)) <| run .fflush <| .goto (.receive sockfd)

def body : Label → Code
  | .main => .stmt .command call
  | .listenThread => listenThread
  | .peerHandleThread sockfd => .push (peerCleanup sockfd) <| .goto (.receive sockfd)
  | .receive sockfd => receive sockfd

end Code

end EmbeddedLinux.Chat
