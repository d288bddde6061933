import EmbeddedLinux.Chat.Ids

/-!
# The threads of the chat program

The main thread in `chatapp_connect_peer`, `chatapp_send_message`,
`chatapp_disconnect_peer` and `chatapp_shutdown`, the `listen_thread`, and one
`peer_handle_thread` for each connection, interleaved step by step.  A locked
section is one step.  Between two steps of a thread any others may run.

The kernel's part is `World.fds`: what each descriptor number refers to at this
moment.  `socket` and `accept` return a number that is not open, `close` frees the
number, and a number that has been freed may be returned again.  Connections are
counted (`ConnId`), so a connection keeps its identity when its number is reused.
The handler of connection `c` is thread `c`; no handler is joined or detached, so no
`pthread_t` is reused.

A connection's record holds what the thread that made it and its handler have
on their stacks: the number, how far each of the two has got (`Stage`,
`HandlerPc`), and whether a `pthread_cancel` is pending.  Cancellation is deferred:
it is acted on at `recv`, at `printf` and `fflush`, or at `close`, and it may come in
after the call has been completed, so a pending request need not be acted on at the
next such point.  What `recv` returns is not tied to the number, since the handler may
already be waiting inside `recv` when the number is closed.

Two history variables are read by no step: the ID `chatapp_add_peer` returned for a
connection, and the log of the `close` calls made for connections, each with what
its number referred to when it was called.
-/

namespace EmbeddedLinux.Chat

open Transition

/-- The connections, in the order in which their descriptors were made. -/
abbrev ConnId := Nat

/-- What an open number refers to. -/
inductive Owner
  | inherited
  | listener
  | conn (c : ConnId)
  deriving DecidableEq

/-- How far the thread that made the descriptor has got with it. -/
inductive Stage
  /-- at `inet_pton` and `connect`, in `chatapp_connect_peer` only -/
  | dialing
  /-- at `malloc` and `pthread_create` -/
  | spawning
  /-- at the `close` of a failure exit -/
  | failing
  /-- at `chatapp_add_peer` -/
  | adding
  /-- `chatapp_add_peer` has returned -1: at `close` -/
  | refused
  /-- at `pthread_cancel` -/
  | cancelling
  | done
  deriving DecidableEq

/-- Where a handler thread is. -/
inductive HandlerPc
  /-- not created -/
  | absent
  /-- at `recv` -/
  | receiving
  /-- `recv` has returned `n > 0`: at `printf` and `fflush` -/
  | displaying
  /-- `recv` has returned `n <= 0`: at `printf` -/
  | leaving
  /-- at `pthread_mutex_lock` -/
  | locking
  /-- at the `close` in the loop -/
  | closing
  /-- at the `close` of `peer_cleanup`, run by `pthread_cleanup_pop` -/
  | popping
  /-- at the `close` of `peer_cleanup`, run by the cancellation -/
  | cancelled
  | ended
  deriving DecidableEq

structure Conn where
  sockfd : Int
  ip : List UInt8
  port : Int
  stage : Stage
  handler : HandlerPc
  cancel : Bool
  id : Option Int

/-- A `close` call for a connection, and what its number referred to. -/
structure Closing where
  conn : ConnId
  hit : Option Owner

/-- What the threads share, and the records of the connections. -/
structure World where
  app : ChatApp
  fds : Int → Option Owner
  conn : ConnId → Conn
  conns : Nat
  closed : List Closing

inductive MainPc
  /-- between two calls -/
  | ready
  | connecting (c : ConnId)
  /-- in `chatapp_shutdown`: at `close(app->listener_socket)` -/
  | stopping
  | joining
  | clearing
  | destroying
  | finished
  deriving DecidableEq

inductive ListenerPc
  /-- at the locked read of `app->running` -/
  | checking
  /-- at `accept` -/
  | calling
  /-- inside `accept` -/
  | accepting
  | serving (c : ConnId)
  | ended
  deriving DecidableEq

structure State extends World where
  main : MainPc
  listener : ListenerPc

/-! ### The parts of a step -/

namespace World

def sockfd (w : World) (c : ConnId) : Int := (w.conn c).sockfd

def setConn (w : World) (c : ConnId) (k : Conn) : World :=
  { w with conn := Function.update w.conn c k }

def setStage (w : World) (c : ConnId) (st : Stage) : World :=
  w.setConn c { w.conn c with stage := st }

def setHandler (w : World) (c : ConnId) (h : HandlerPc) : World :=
  w.setConn c { w.conn c with handler := h }

/-- `close(fd)`, called for connection `c`.  On a number that is not open it fails
and changes nothing. -/
def closeFd (w : World) (c : ConnId) (fd : Int) : World :=
  { w with
    fds := Function.update w.fds fd none
    closed := w.closed ++ [⟨c, w.fds fd⟩] }

/-- `peer_cleanup` -/
def peerCleanup (w : World) (c : ConnId) : World :=
  if 0 ≤ w.sockfd c then w.closeFd c (w.sockfd c) else w

def pthreadCancel (w : World) (tid : Tid) : World :=
  w.setConn tid { w.conn tid with cancel := true }

/-- `socket` or `accept` has returned `fd`. -/
def newConn (w : World) (fd : Int) (ip : List UInt8) (port : Int) (st : Stage) : World :=
  { w with
    fds := Function.update w.fds fd (some (.conn w.conns))
    conn := Function.update w.conn w.conns
      { sockfd := fd, ip := ip, port := port, stage := st, handler := .absent,
        cancel := false, id := none }
    conns := w.conns + 1 }

/-- A call of a locked section.  A slot's descriptor is the one of its thread's
connection; `send` changes nothing here. -/
def doCall (w : World) : Call → World
  | .close p => w.closeFd p.threadId p.sockfd
  | .pthreadCancel p => w.pthreadCancel p.threadId
  | .send _ _ => w

/-- A locked section: the new table, and its calls in order. -/
def doReply (w : World) (r : Reply) : World := r.calls.foldl doCall { w with app := r.app }

/-- `chatapp_add_peer` for connection `c`, and the branch on what it returns. -/
def register (w : World) (c : ConnId) : World :=
  let k := w.conn c
  let r := chatappAddPeer w.app k.sockfd k.ip k.port c
  let w' := w.doReply r
  if r.ret = -1 then w'.setStage c .refused
  else w'.setConn c { k with stage := .done, id := some r.ret }

end World

/-- The two threads that make connections. -/
inductive Creator
  | main
  | listener
  deriving DecidableEq

/-- The connection the thread is making. -/
def State.creating (s : State) : Creator → Option ConnId
  | .main => match s.main with
    | .connecting c => some c
    | _ => none
  | .listener => match s.listener with
    | .serving c => some c
    | _ => none

/-- `chatapp_connect_peer` returns, or `listen_thread` goes to the top of its loop. -/
def State.leave (s : State) : Creator → State
  | .main => { s with main := .ready }
  | .listener => { s with listener := .checking }

/-! ### Steps -/

inductive Action
  /-- `chatapp_connect_peer(app, ip, port)` is called and `socket` returns `fd`, or fails -/
  | socket (ip : List UInt8) (port : Int) (fd : Option Int)
  /-- `inet_pton` and `connect`; `ok`: neither failed -/
  | dial (c : ConnId) (ok : Bool)
  /-- `malloc` and `pthread_create`; `ok`: neither failed -/
  | spawn (t : Creator) (c : ConnId) (ok : Bool)
  | failClose (t : Creator) (c : ConnId)
  | addPeer (t : Creator) (c : ConnId)
  | refuseClose (t : Creator) (c : ConnId)
  | refuseCancel (t : Creator) (c : ConnId)
  | listPeers
  | sendMessage (id : Int) (msg : List UInt8)
  | disconnectPeer (id : Int)
  /-- the steps of `chatapp_shutdown` -/
  | stop
  | closeListener
  | join
  | closeAll
  | destroy
  /-- the steps of `listen_thread` -/
  | check
  | callAccept
  | accept (ip : List UInt8) (port : Int) (fd : Option Int)
  /-- the steps of `peer_handle_thread`; `gone`: `recv` returns `n <= 0` -/
  | recv (c : ConnId) (gone : Bool)
  | display (c : ConnId)
  | announce (c : ConnId)
  | deregister (c : ConnId)
  | loopClose (c : ConnId)
  | cleanupClose (c : ConnId)
  /-- a pending cancellation is acted on -/
  | cancelled (c : ConnId)

/-- `socket` and `accept` return a number that is not open, or fail. -/
def World.Fresh (w : World) : Option Int → Prop
  | none => True
  | some fd => 0 ≤ fd ∧ w.fds fd = none

instance (w : World) (fd : Option Int) : Decidable (w.Fresh fd) :=
  match fd with
  | none => inferInstanceAs (Decidable True)
  | some _ => inferInstanceAs (Decidable (_ ∧ _))

/-- The points of a handler at which a pending cancellation is acted on. -/
def HandlerPc.cancelPoint : HandlerPc → Bool
  | .receiving | .displaying | .leaving | .closing | .popping => true
  | _ => false

/-- The thread of the action is there. -/
def Enabled (s : State) : Action → Prop
  | .socket _ _ fd => s.main = .ready ∧ s.Fresh fd
  | .dial c _ => s.main = .connecting c ∧ (s.conn c).stage = .dialing
  | .spawn t c _ => s.creating t = some c ∧ (s.conn c).stage = .spawning
  | .failClose t c => s.creating t = some c ∧ (s.conn c).stage = .failing
  | .addPeer t c => s.creating t = some c ∧ (s.conn c).stage = .adding
  | .refuseClose t c => s.creating t = some c ∧ (s.conn c).stage = .refused
  | .refuseCancel t c => s.creating t = some c ∧ (s.conn c).stage = .cancelling
  | .listPeers => s.main = .ready
  | .sendMessage _ _ => s.main = .ready
  | .disconnectPeer _ => s.main = .ready
  | .stop => s.main = .ready
  | .closeListener => s.main = .stopping
  | .join => s.main = .joining ∧ s.listener = .ended
  | .closeAll => s.main = .clearing
  | .destroy => s.main = .destroying
  | .check => s.listener = .checking
  | .callAccept => s.listener = .calling
  | .accept _ _ fd => s.listener = .accepting ∧ s.Fresh fd
  | .recv c _ => (s.conn c).handler = .receiving
  | .display c => (s.conn c).handler = .displaying
  | .announce c => (s.conn c).handler = .leaving
  | .deregister c => (s.conn c).handler = .locking
  | .loopClose c => (s.conn c).handler = .closing
  | .cleanupClose c => (s.conn c).handler = .popping ∨ (s.conn c).handler = .cancelled
  | .cancelled c => (s.conn c).cancel = true ∧ (s.conn c).handler.cancelPoint = true

instance (s : State) : (a : Action) → Decidable (Enabled s a)
  | .socket _ _ _ | .dial _ _ | .spawn _ _ _ | .failClose _ _ | .addPeer _ _ | .refuseClose _ _
  | .refuseCancel _ _ | .join | .accept _ _ _ | .cancelled _ =>
    inferInstanceAs (Decidable (_ ∧ _))
  | .listPeers | .sendMessage _ _ | .disconnectPeer _ | .stop | .closeListener | .closeAll
  | .destroy | .check | .callAccept | .recv _ _ | .display _ | .announce _ | .deregister _
  | .loopClose _ => inferInstanceAs (Decidable (_ = _))
  | .cleanupClose _ => inferInstanceAs (Decidable (_ ∨ _))

/-- Where a handler goes when it acts on a cancellation.  `pthread_cleanup_pop` has
taken `peer_cleanup` off before it runs it, so it is not run a second time. -/
def HandlerPc.afterCancel : HandlerPc → HandlerPc
  | .popping => .ended
  | _ => .cancelled

/-- What the action does. -/
def effect (s : State) : Action → State
  | .socket _ _ none => s
  | .socket ip port (some fd) =>
    { s with toWorld := s.newConn fd ip port .dialing, main := .connecting s.conns }
  | .dial c ok => { s with toWorld := s.setStage c (if ok then .spawning else .failing) }
  | .spawn _ c true =>
    { s with toWorld := s.setConn c { s.conn c with stage := .adding, handler := .receiving } }
  | .spawn _ c false => { s with toWorld := s.setStage c .failing }
  | .failClose t c =>
    { s with toWorld := (s.closeFd c (s.sockfd c)).setStage c .done }.leave t
  | .addPeer t c =>
    let s' := { s with toWorld := s.register c }
    if (s'.conn c).stage = .refused then s' else s'.leave t
  | .refuseClose _ c =>
    { s with toWorld := (s.closeFd c (s.sockfd c)).setStage c .cancelling }
  | .refuseCancel t c => { s with toWorld := (s.pthreadCancel c).setStage c .done }.leave t
  | .listPeers => { s with toWorld := s.doReply (chatappListPeers s.app) }
  | .sendMessage id msg => { s with toWorld := s.doReply (chatappSendMessage s.app id msg) }
  | .disconnectPeer id => { s with toWorld := s.doReply (chatappDisconnectPeer s.app id) }
  | .stop => { s with toWorld := s.doReply (stop s.app), main := .stopping }
  | .closeListener =>
    { s with fds := Function.update s.fds s.app.listenerSocket none, main := .joining }
  | .join => { s with main := .clearing }
  | .closeAll => { s with toWorld := s.doReply (closeAll s.app), main := .destroying }
  | .destroy => { s with main := .finished }
  | .check => { s with listener := if s.app.running then .calling else .ended }
  | .callAccept =>
    { s with
      listener := if s.fds s.app.listenerSocket = some .listener then .accepting else .checking }
  | .accept _ _ none => { s with listener := .checking }
  | .accept ip port (some fd) =>
    { s with toWorld := s.newConn fd ip port .spawning, listener := .serving s.conns }
  | .recv c gone =>
    { s with toWorld := s.setHandler c (if gone then .leaving else .displaying) }
  | .display c => { s with toWorld := s.setHandler c .receiving }
  | .announce c => { s with toWorld := s.setHandler c .locking }
  | .deregister c =>
    { s with toWorld := (s.doReply (deregister s.app (s.sockfd c))).setHandler c .closing }
  | .loopClose c =>
    { s with toWorld := (s.closeFd c (s.sockfd c)).setHandler c .popping }
  | .cleanupClose c => { s with toWorld := (s.peerCleanup c).setHandler c .ended }
  | .cancelled c =>
    { s with toWorld := s.setHandler c (s.conn c).handler.afterCancel }

def step (s : State) (a : Action) : Option State :=
  if Enabled s a then some (effect s a) else none

/-- What a step is: the action is possible, and the new state is its effect. -/
theorem step_eq_some {s t : State} {a : Action} :
    step s a = some t ↔ Enabled s a ∧ effect s a = t := by
  rw [step, Option.ite_none_right_eq_some, Option.some_inj]

/-- After `chatapp_setup` and `chatapp_launch`: `fd` is the listening socket, and
`inherited` are the other numbers the process has open. -/
def initial (port : Int) (fd : Nat) (inherited : Int → Bool) : State :=
  { app := chatappSetup port fd
    fds := fun n => if n = fd then some .listener else if inherited n then some .inherited else none
    conn := fun _ =>
      { sockfd := -1, ip := [], port := 0, stage := .done, handler := .absent, cancel := false,
        id := none }
    conns := 0
    closed := []
    main := .ready
    listener := .checking }

end EmbeddedLinux.Chat
