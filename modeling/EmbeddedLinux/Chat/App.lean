import EmbeddedLinux.Lib.CString
import EmbeddedLinux.Lib.Transition

/-!
# The peer table of the chat program

`peer.c` and the parts of `chatapp.c` that run with `app->mutex` held, each as one
function of the whole `ChatApp`.  A section of the source that searches the slots
takes the first one that fits, which is `firstSlot`.

What a section does besides changing the table is in its `Reply`: the value the
function returns, the system calls it makes on a slot while it holds the lock, in
their order, and the text it prints.  `chatapp_shutdown` has two locked sections,
`stop` and `closeAll`, and the search in `peer_handle_thread` after `recv` has
returned `n <= 0` is `deregister`.

`Op` lists the sections, and `next` is the table after one of them: a run of `next`
is a sequence of locked operations, from any threads, in any order.
-/

namespace EmbeddedLinux.Chat

open CString Transition

/-- `MAX_PEERS` -/
abbrev maxPeers : Nat := 10

/-- `INET_ADDRSTRLEN` -/
abbrev inetAddrstrlen : Nat := 16

/-- `INT_MAX` -/
def intMax : Int := 2147483647

/-- A `pthread_t`. -/
abbrev Tid := Nat

/-- One slot of the table. -/
structure Peer where
  id : Int
  sockfd : Int
  ip : Fin inetAddrstrlen → UInt8
  port : Int
  threadId : Tid
  active : Bool

def peerInit : Peer :=
  { id := 0, sockfd := -1, ip := fun _ => 0, port := 0, threadId := 0, active := false }

/-- Every field of the slot is overwritten, so what was in it before is gone. -/
def peerSet (p : Peer) (id sockfd : Int) (ip : List UInt8) (port : Int) (tid : Tid) : Peer :=
  { p with
    id := id
    sockfd := sockfd
    port := port
    threadId := tid
    active := true
    ip := Function.update (strncpy inetAddrstrlen ip) (Fin.last 15) 0 }

/-- The fields of `ChatApp` that the locked sections read or write. -/
structure ChatApp where
  peers : Fin maxPeers → Peer
  nextPeerId : Int
  serverPort : Int
  listenerSocket : Int
  running : Bool

/-- The state `chatapp_setup` leaves when `socket` has returned `fd` and neither
`bind` nor `listen` has failed; otherwise it exits. -/
def chatappSetup (port fd : Int) : ChatApp :=
  { peers := fun _ => peerInit
    nextPeerId := 1
    serverPort := port
    listenerSocket := fd
    running := true }

/-- A system call a locked section makes with the fields of a slot. -/
inductive Call
  /-- `close(p.sockfd)` -/
  | close (p : Peer)
  /-- `pthread_cancel(p.thread_id)` -/
  | pthreadCancel (p : Peer)
  /-- `send(p.sockfd, msg, strlen(msg), 0)` -/
  | send (p : Peer) (msg : List UInt8)

/-- What is done to end a peer. -/
def endCalls (p : Peer) : List Call := [.close p, .pthreadCancel p]

/-- What a locked section leaves behind. -/
structure Reply where
  ret : Int
  app : ChatApp
  calls : List Call
  out : List UInt8

namespace ChatApp

/-- The slot a first-match loop stops at. -/
def firstSlot (app : ChatApp) (p : Peer → Bool) : Option (Fin maxPeers) :=
  Fin.find? (fun i => p (app.peers i))

def setPeer (app : ChatApp) (i : Fin maxPeers) (p : Peer) : ChatApp :=
  { app with peers := Function.update app.peers i p }

@[simp] theorem setPeer_nextPeerId (app : ChatApp) (i : Fin maxPeers) (p : Peer) :
    (app.setPeer i p).nextPeerId = app.nextPeerId := rfl

theorem setPeer_peers (app : ChatApp) (i j : Fin maxPeers) (p : Peer) :
    (app.setPeer i p).peers j = if j = i then p else app.peers j :=
  Function.update_apply _ _ _ _

theorem firstSlot_eq_some {app : ChatApp} {p : Peer → Bool} {i : Fin maxPeers} :
    app.firstSlot p = some i ↔ p (app.peers i) = true ∧ ∀ j < i, p (app.peers j) = false :=
  Fin.find?_eq_some_iff

theorem firstSlot_eq_none {app : ChatApp} {p : Peer → Bool} :
    app.firstSlot p = none ↔ ∀ i, p (app.peers i) = false :=
  Fin.find?_eq_none_iff

end ChatApp

/-- A slot `chatapp_add_peer` may take. -/
def Peer.free (p : Peer) : Bool := !p.active

/-- The slot `chatapp_send_message` and `chatapp_disconnect_peer` look for. -/
def Peer.hasId (id : Int) (p : Peer) : Bool := p.active && p.id == id

/-- The slot a handler looks for. -/
def Peer.hasSockfd (fd : Int) (p : Peer) : Bool := p.active && p.sockfd == fd

@[simp] theorem Peer.free_eq {p : Peer} : p.free = true ↔ p.active = false := by
  simp [Peer.free]

@[simp] theorem Peer.hasId_eq {id : Int} {p : Peer} :
    p.hasId id = true ↔ p.active = true ∧ p.id = id := by
  simp [Peer.hasId]

@[simp] theorem Peer.hasSockfd_eq {fd : Int} {p : Peer} :
    p.hasSockfd fd = true ↔ p.active = true ∧ p.sockfd = fd := by
  simp [Peer.hasSockfd]

/-- A slot with its flag cleared; all its other fields stay. -/
def Peer.clear (p : Peer) : Peer := { p with active := false }

@[simp] theorem Peer.clear_active (p : Peer) : p.clear.active = false := rfl

/-! ### The locked sections -/

def chatappAddPeer (app : ChatApp) (sockfd : Int) (ip : List UInt8) (port : Int) (tid : Tid) :
    Reply :=
  if app.nextPeerId > intMax - 1 then
    { ret := -1, app := app, calls := [], out := text "[-] Peer ID limit reached.\n" }
  else
    match app.firstSlot Peer.free with
    | some i =>
      -- the argument `app->next_peer_id++` hands the old value on
      let app' := { app.setPeer i (peerSet (app.peers i) app.nextPeerId sockfd ip port tid) with
        nextPeerId := app.nextPeerId + 1 }
      { ret := (app'.peers i).id, app := app', calls := [], out := [] }
    | none => { ret := -1, app := app, calls := [], out := [] }

/-- The line `chatapp_list_peers` prints for a slot. -/
def peerLine (p : Peer) : List UInt8 :=
  decimal p.id ++ text "\t" ++ cstr (List.ofFn p.ip) ++ text "\t" ++ decimal p.port ++ text "\n"

def chatappListPeers (app : ChatApp) : Reply :=
  { ret := 0
    app := app
    calls := []
    out := text "ID\tIP Address\tPort\n" ++
      (List.finRange maxPeers).flatMap (fun i =>
        if (app.peers i).active then peerLine (app.peers i) else []) }

/-- The value `send` returns is not looked at. -/
def chatappSendMessage (app : ChatApp) (id : Int) (msg : List UInt8) : Reply :=
  match app.firstSlot (Peer.hasId id) with
  | some i => { ret := 0, app := app, calls := [.send (app.peers i) (cstr msg)], out := [] }
  | none =>
    { ret := -1, app := app, calls := []
      out := text "[-] No such connection ID " ++ decimal id ++ text "\n" }

def chatappDisconnectPeer (app : ChatApp) (id : Int) : Reply :=
  match app.firstSlot (Peer.hasId id) with
  | some i =>
    { ret := 0
      app := app.setPeer i (app.peers i).clear
      calls := endCalls (app.peers i)
      out := text "[x] Terminated connection ID " ++ decimal id ++ text "\n" }
  | none =>
    { ret := -1, app := app, calls := []
      out := text "[-] ID " ++ decimal id ++ text " not found\n" }

/-- The locked part of `peer_handle_thread`. -/
def deregister (app : ChatApp) (sockfd : Int) : Reply :=
  match app.firstSlot (Peer.hasSockfd sockfd) with
  | some i => { ret := 0, app := app.setPeer i (app.peers i).clear, calls := [], out := [] }
  | none => { ret := 0, app := app, calls := [], out := [] }

/-- The first locked part of `chatapp_shutdown`. -/
def stop (app : ChatApp) : Reply :=
  { ret := 0, app := { app with running := false }, calls := [], out := [] }

/-- The second locked part of `chatapp_shutdown`. -/
def closeAll (app : ChatApp) : Reply :=
  { ret := 0
    app := { app with
      peers := fun i => if (app.peers i).active then (app.peers i).clear else app.peers i }
    calls := (List.finRange maxPeers).flatMap (fun i =>
      if (app.peers i).active then endCalls (app.peers i) else [])
    out := [] }

/-! ### What each section can do -/

/-- A loop over the array that does something for the active slots. -/
theorem flatMap_active {α : Type} (app : ChatApp) (f : Peer → List α) (l : List (Fin maxPeers)) :
    l.flatMap (fun i => if (app.peers i).active then f (app.peers i) else []) =
      (l.filter (fun i => (app.peers i).active)).flatMap (fun i => f (app.peers i)) := by
  induction l with
  | nil => rfl
  | cons i l ih =>
    rw [List.flatMap_cons, ih]
    by_cases ha : (app.peers i).active = true
    · rw [if_pos ha, List.filter_cons, if_pos ha, List.flatMap_cons]
    · rw [if_neg ha, List.filter_cons, if_neg ha, List.nil_append]

/-- A registration refuses and changes nothing, or takes the first free slot. -/
theorem chatappAddPeer_cases (app : ChatApp) (sockfd : Int) (ip : List UInt8) (port : Int)
    (tid : Tid) :
    ((chatappAddPeer app sockfd ip port tid).ret = -1 ∧
      (chatappAddPeer app sockfd ip port tid).app = app ∧
      (intMax ≤ app.nextPeerId ∨ ∀ i, (app.peers i).active = true)) ∨
    ∃ i, app.nextPeerId < intMax ∧ (app.peers i).active = false ∧
      (∀ j < i, (app.peers j).active = true) ∧
      (chatappAddPeer app sockfd ip port tid).ret = app.nextPeerId ∧
      (chatappAddPeer app sockfd ip port tid).app =
        { app.setPeer i (peerSet (app.peers i) app.nextPeerId sockfd ip port tid) with
          nextPeerId := app.nextPeerId + 1 } := by
  unfold chatappAddPeer
  by_cases hlim : app.nextPeerId > intMax - 1
  · rw [if_pos hlim]
    exact Or.inl ⟨rfl, rfl, Or.inl (by omega)⟩
  · rw [if_neg hlim]
    cases hf : app.firstSlot Peer.free with
    | none =>
      refine Or.inl ⟨rfl, rfl, Or.inr (fun i => ?_)⟩
      simpa [Peer.free] using ChatApp.firstSlot_eq_none.mp hf i
    | some i =>
      obtain ⟨hi, hlt⟩ := ChatApp.firstSlot_eq_some.mp hf
      refine Or.inr ⟨i, by omega, by simpa using hi, fun j hj => ?_, ?_, rfl⟩
      · simpa [Peer.free] using hlt j hj
      · simp [ChatApp.setPeer, peerSet]

theorem chatappSendMessage_app (app : ChatApp) (id : Int) (msg : List UInt8) :
    (chatappSendMessage app id msg).app = app := by
  unfold chatappSendMessage
  split <;> rfl

/-- `send` goes to the first active slot with the ID, or is not called. -/
theorem chatappSendMessage_cases (app : ChatApp) (id : Int) (msg : List UInt8) :
    ((chatappSendMessage app id msg).ret = -1 ∧ (chatappSendMessage app id msg).calls = [] ∧
      ∀ i, (app.peers i).active = true → (app.peers i).id ≠ id) ∨
    ∃ i, (app.peers i).active = true ∧ (app.peers i).id = id ∧
      (chatappSendMessage app id msg).ret = 0 ∧
      (chatappSendMessage app id msg).calls = [.send (app.peers i) (cstr msg)] := by
  unfold chatappSendMessage
  cases hf : app.firstSlot (Peer.hasId id) with
  | none =>
    refine Or.inl ⟨rfl, rfl, fun i ha hid => ?_⟩
    have := ChatApp.firstSlot_eq_none.mp hf i
    rw [Peer.hasId_eq.mpr ⟨ha, hid⟩] at this
    cases this
  | some i =>
    obtain ⟨ha, hid⟩ := Peer.hasId_eq.mp (ChatApp.firstSlot_eq_some.mp hf).1
    exact Or.inr ⟨i, ha, hid, rfl, rfl⟩

/-- A termination finds no slot and changes nothing, or clears one with the ID. -/
theorem chatappDisconnectPeer_cases (app : ChatApp) (id : Int) :
    ((chatappDisconnectPeer app id).ret = -1 ∧ (chatappDisconnectPeer app id).app = app ∧
      (chatappDisconnectPeer app id).calls = [] ∧
      ∀ i, (app.peers i).active = true → (app.peers i).id ≠ id) ∨
    ∃ i, (app.peers i).active = true ∧ (app.peers i).id = id ∧
      (chatappDisconnectPeer app id).ret = 0 ∧
      (chatappDisconnectPeer app id).app = app.setPeer i (app.peers i).clear ∧
      (chatappDisconnectPeer app id).calls = endCalls (app.peers i) := by
  unfold chatappDisconnectPeer
  cases hf : app.firstSlot (Peer.hasId id) with
  | none =>
    refine Or.inl ⟨rfl, rfl, rfl, fun i ha hid => ?_⟩
    have := ChatApp.firstSlot_eq_none.mp hf i
    rw [Peer.hasId_eq.mpr ⟨ha, hid⟩] at this
    cases this
  | some i =>
    obtain ⟨ha, hid⟩ := Peer.hasId_eq.mp (ChatApp.firstSlot_eq_some.mp hf).1
    exact Or.inr ⟨i, ha, hid, rfl, rfl, rfl⟩

/-- A handler's deregistration changes nothing, or clears one slot with its number. -/
theorem deregister_cases (app : ChatApp) (fd : Int) :
    ((deregister app fd).app = app ∧ ∀ i, (app.peers i).active = true →
      (app.peers i).sockfd ≠ fd) ∨
    ∃ i, (app.peers i).active = true ∧ (app.peers i).sockfd = fd ∧
      (deregister app fd).app = app.setPeer i (app.peers i).clear := by
  unfold deregister
  cases hf : app.firstSlot (Peer.hasSockfd fd) with
  | none =>
    refine Or.inl ⟨rfl, fun i ha hfd => ?_⟩
    have := ChatApp.firstSlot_eq_none.mp hf i
    rw [Peer.hasSockfd_eq.mpr ⟨ha, hfd⟩] at this
    cases this
  | some i =>
    obtain ⟨ha, hfd⟩ := Peer.hasSockfd_eq.mp (ChatApp.firstSlot_eq_some.mp hf).1
    exact Or.inr ⟨i, ha, hfd, rfl⟩

@[simp] theorem closeAll_active (app : ChatApp) (i : Fin maxPeers) :
    ((closeAll app).app.peers i).active = false := by
  simp only [closeAll]
  split
  · rfl
  · rename_i h
    simpa using h

/-! ### Sequences of locked operations -/

/-- The locked sections, with their arguments. -/
inductive Op
  | addPeer (sockfd : Int) (ip : List UInt8) (port : Int) (tid : Tid)
  | listPeers
  | sendMessage (id : Int) (msg : List UInt8)
  | disconnectPeer (id : Int)
  | deregister (sockfd : Int)
  | stop
  | closeAll

def reply (app : ChatApp) : Op → Reply
  | .addPeer sockfd ip port tid => chatappAddPeer app sockfd ip port tid
  | .listPeers => chatappListPeers app
  | .sendMessage id msg => chatappSendMessage app id msg
  | .disconnectPeer id => chatappDisconnectPeer app id
  | .deregister sockfd => deregister app sockfd
  | .stop => stop app
  | .closeAll => closeAll app

/-- A locked section is possible in every state. -/
def next (app : ChatApp) (op : Op) : Option ChatApp := some (reply app op).app

/-- The slots after a section: each is as it was, or was cleared, or was taken by a
registration under the next ID. -/
theorem reply_slot (app : ChatApp) (op : Op) (i : Fin maxPeers)
    (h : ((reply app op).app.peers i).active = true) :
    (reply app op).app.peers i = app.peers i ∨
      ∃ sockfd ip port tid, op = .addPeer sockfd ip port tid ∧ (app.peers i).active = false ∧
        app.nextPeerId < intMax ∧ (reply app op).ret = app.nextPeerId ∧
        (reply app op).app.peers i =
          peerSet (app.peers i) app.nextPeerId sockfd ip port tid := by
  cases op with
  | addPeer sockfd ip port tid =>
    obtain ⟨-, h', -⟩ | ⟨k, hlim, hk, -, hret, h'⟩ := chatappAddPeer_cases app sockfd ip port tid
    · exact Or.inl (by rw [reply, h'])
    · by_cases hik : i = k
      · subst hik
        refine Or.inr ⟨sockfd, ip, port, tid, rfl, hk, hlim, hret, ?_⟩
        rw [reply, h']
        simp [ChatApp.setPeer]
      · refine Or.inl ?_
        rw [reply, h']
        simp [ChatApp.setPeer, hik]
  | listPeers => exact Or.inl rfl
  | sendMessage id msg => exact Or.inl (by rw [reply, chatappSendMessage_app])
  | disconnectPeer id =>
    left
    obtain ⟨-, h', -⟩ | ⟨k, -, -, -, h', -⟩ := chatappDisconnectPeer_cases app id
    · rw [reply, h']
    · rw [reply, h', ChatApp.setPeer_peers] at h ⊢
      split at h
      · simp at h
      · rw [if_neg ‹_›]
  | deregister fd =>
    left
    obtain ⟨h', -⟩ | ⟨k, -, -, h'⟩ := deregister_cases app fd
    · rw [reply, h']
    · rw [reply, h', ChatApp.setPeer_peers] at h ⊢
      split at h
      · simp at h
      · rw [if_neg ‹_›]
  | stop => exact Or.inl rfl
  | closeAll => rw [reply, closeAll_active] at h; cases h

end EmbeddedLinux.Chat
