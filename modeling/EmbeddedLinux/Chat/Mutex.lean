import EmbeddedLinux.Chat.Code

/-!
# The peer mutex

The code of the chat program as a machine of `Locking`: what the statements do to the memory, and
which of them are cancellation points.  A request to cancel a handler may be acted on at any
of its cancellation points.

Only handlers are cancelled, and a handler holds the mutex in one section only, its search
for its own slot, which has no cancellation point.  `chatapp_list_peers`,
`chatapp_disconnect_peer` and `chatapp_shutdown` have some, but run in the main thread.
So every body keeps the discipline (`disciplined`), and the mutex is never orphaned:
`mutex_never_orphaned`.
-/

namespace EmbeddedLinux.Chat

open CString Locking Transition

/-- The table, what has been printed, and the requests to cancel. -/
structure Mem where
  app : ChatApp
  out : List UInt8
  cancel : Tid → Bool

/-- What the environment decides at a statement. -/
inductive Input
  | none
  | ok (b : Bool)
  | fd (fd : Option Int)
  | peer (peer : Option (Int × List UInt8 × Int))
  | received (b : Option Received)
  | tid (tid : Option Tid)
  | command (c : Command)

namespace Stmt

/-- What a statement gives, and the memory after it. -/
def exec (m : Mem) : (x : Stmt) → Input → Option (Res x × Mem)
  | .read f, .none => some (f m.app, m)
  | .set f, .none => some ((), { m with app := f m.app })
  | .printf out, .none => some ((), { m with out := m.out ++ out })
  | .socket, .fd fd => some (fd, m)
  | .inetPton _, .ok b => some (b, m)
  | .connect _ _, .ok b => some (b, m)
  | .malloc, .ok b => some (b, m)
  | .accept, .peer peer => some (peer, m)
  | .recv _, .received b => some (b, m)
  | .pthreadCreate _, .tid tid => some (tid, m)
  | .pthreadCancel tid, .none => some ((), { m with cancel := Function.update m.cancel tid true })
  | .command, .command c => some (c, m)
  | .perror _, .none => some ((), m)
  | .fflush, .none => some ((), m)
  | .close _, .none => some ((), m)
  | .closeListener, .none => some ((), m)
  | .send _ _, .none => some ((), m)
  | .pthreadJoin, .none => some ((), m)
  | _, _ => none

/-- The cancellation points. -/
def point : Stmt → Bool
  | .printf _ | .perror _ | .fflush | .close _ | .closeListener | .connect _ _ | .accept
  | .send _ _ | .recv _ | .pthreadJoin => true
  | _ => false

/-- The table is read and written with the mutex held. -/
def needs : Stmt → Bool
  | .read _ | .set _ => true
  | _ => false

def starts : (x : Stmt) → Res x → Option (ThreadId × Label)
  | .pthreadCreate sockfd, some tid => some (.handler tid, .peerHandleThread sockfd)
  | _, _ => none

def awaits : Stmt → Option ThreadId
  | .pthreadJoin => some .listener
  | _ => none

end Stmt

def ThreadId.isHandler : ThreadId → Bool
  | .handler _ => true
  | _ => false

/-- A request is kept for handlers only. -/
def Mem.pending (m : Mem) : ThreadId → Bool
  | .handler tid => m.cancel tid
  | _ => false

def machine : Machine Stmt Res Label ThreadId Mem Input where
  body := Code.body
  exec x e m := x.exec m e
  starts := Stmt.starts
  awaits := Stmt.awaits
  point := Stmt.point
  pending := Mem.pending

def discipline : Discipline Stmt Label ThreadId where
  needs := Stmt.needs
  cancellable := ThreadId.isHandler
  mayCancel
    | .peerHandleThread _ | .receive _ => true
    | _ => false

/-- After `chatapp_setup` and `chatapp_launch`. -/
def launched (port fd : Int) : Locking.State Stmt Res Label ThreadId Mem where
  mem := { app := chatappSetup port fd, out := [], cancel := fun _ => false }
  owner := none
  threads
    | .main => some (Thread.start (.goto .main))
    | .listener => some (Thread.start (.goto .listenThread))
    | .handler _ => none
  log := []

/-! ### Every section keeps the discipline -/

namespace Code

variable {c : Bool}

/-- Programs that fit, in a thread that can be cancelled or not. -/
abbrev Fit (c held : Bool) (k : Code) : Prop := Fits machine discipline c held k

/-- An expression over the table, with the mutex. -/
theorem fit_read {α : Type} {f : ChatApp → α} {k : α → Code} (hk : ∀ a, Fit c true (k a)) :
    Fit c true (.stmt (.read f) k) :=
  ⟨fun _ h => (by cases h), fun _ => rfl, hk⟩

theorem fit_test {f : ChatApp → Bool} {yes no : Code} (hyes : Fit c true yes)
    (hno : Fit c true no) : Fit c true (test f yes no) := by
  refine fit_read (fun b => ?_)
  cases b
  · exact hno
  · exact hyes

/-- A call that is no cancellation point, or in a thread that is not cancelled, or without the
mutex. -/
theorem fit_run {held : Bool} {x : Stmt} (hneeds : x.needs = true → held = true)
    (hpoint : c = false ∨ held = false ∨ x.point = false) {k : Code} (hk : Fit c held k) :
    Fit c held (run x k) := by
  refine ⟨fun hc hp => ?_, hneeds, fun _ => hk⟩
  rcases hpoint with h | h | h
  · rw [h] at hc
    cases hc
  · exact h
  · exact absurd (hp.symm.trans h) (by decide)

/-- A call without the mutex. -/
theorem fit_call {x : Stmt} (hneeds : x.needs = false) {k : Res x → Code}
    (hk : ∀ r, Fit c false (k r)) : Fit c false (.stmt x k) := by
  refine ⟨fun _ _ => rfl, fun h => ?_, hk⟩
  exact absurd (h.symm.trans hneeds) (by decide)

theorem fit_addPeer {sockfd : Int} {ip : List UInt8} {port : Int} {tid : Tid} {k : Int → Code}
    (hk : ∀ id, Fit false false (k id)) :
    Fit false false (chatappAddPeer sockfd ip port tid k) := by
  refine fits_lock (fit_test ?_ (fits_forEach ?_ (fits_unlock (hk _)) _))
  · exact fit_run (fun h => by cases h) (Or.inl rfl) (fits_unlock (hk _))
  · intro i next hnext
    refine fit_test (fit_run (fun _ => rfl) (Or.inl rfl) ?_) hnext
    exact fit_read (fun id => fits_unlock (hk id))

theorem fit_connectPeer {ip : List UInt8} {port : Int} {k : Int → Code}
    (hk : ∀ id, Fit false false (k id)) : Fit false false (chatappConnectPeer ip port k) := by
  refine fit_call rfl (fun fd => ?_)
  cases fd with
  | none => exact fit_call rfl (fun _ => hk _)
  | some sockfd =>
    have hclose : Fit false false (run (.close sockfd) (k (-1))) := fit_call rfl (fun _ => hk _)
    refine fit_call rfl (fun ok => ?_)
    cases ok
    · exact fit_call rfl (fun _ => hclose)
    refine fit_call rfl (fun ok => ?_)
    cases ok
    · exact fit_call rfl (fun _ => hclose)
    refine fit_call rfl (fun _ => fit_call rfl (fun ok => ?_))
    cases ok
    · exact fit_call rfl (fun _ => hclose)
    refine fit_call rfl (fun tid => ?_)
    cases tid with
    | none => exact fit_call rfl (fun _ => hclose)
    | some tid =>
      refine fit_addPeer (fun id => ?_)
      split
      · exact fit_call rfl (fun _ => fit_call rfl (fun _ => fit_call rfl (fun _ => hk _)))
      · exact fit_call rfl (fun _ => hk _)

theorem fit_listPeers {k : Code} (hk : Fit false false k) :
    Fit false false (chatappListPeers k) := by
  refine fit_call rfl (fun _ => fits_lock (fits_forEach ?_ (fits_unlock hk) _))
  intro i next hnext
  refine fit_test (fit_read (fun line => ?_)) hnext
  exact fit_run (fun h => by cases h) (Or.inl rfl) hnext

theorem fit_sendMessage {id : Int} {msg : List UInt8} {k : Int → Code}
    (hk : ∀ ret, Fit false false (k ret)) : Fit false false (chatappSendMessage id msg k) := by
  refine fits_lock (fits_forEach ?_ (fits_unlock (fit_call rfl (fun _ => hk _))) _)
  intro i next hnext
  refine fit_test (fit_read (fun fd => ?_)) hnext
  exact fit_run (fun h => by cases h) (Or.inl rfl) (fits_unlock (hk _))

theorem fit_disconnectPeer {id : Int} {k : Int → Code} (hk : ∀ ret, Fit false false (k ret)) :
    Fit false false (chatappDisconnectPeer id k) := by
  refine fits_lock (fits_forEach ?_ (fits_unlock (fit_call rfl (fun _ => hk _))) _)
  intro i next hnext
  refine fit_test (fit_read (fun fd => ?_)) hnext
  refine fit_run (fun h => by cases h) (Or.inl rfl) (fit_read (fun tid => ?_))
  refine fit_run (fun h => by cases h) (Or.inl rfl) ?_
  refine fit_run (fun _ => rfl) (Or.inl rfl) ?_
  exact fit_run (fun h => by cases h) (Or.inl rfl) (fits_unlock (hk _))

theorem fit_shutdown {k : Code} (hk : Fit false false k) :
    Fit false false (chatappShutdown k) := by
  refine ⟨rfl, fit_run (fun _ => rfl) (Or.inl rfl) ⟨rfl, ?_⟩⟩
  refine fit_call rfl (fun _ => fit_call rfl (fun _ => fits_lock ?_))
  refine fits_forEach ?_ (fits_unlock hk) _
  intro i next hnext
  refine fit_test (fit_read (fun fd => ?_)) hnext
  refine fit_run (fun h => by cases h) (Or.inl rfl) (fit_read (fun tid => ?_))
  refine fit_run (fun h => by cases h) (Or.inl rfl) ?_
  exact fit_run (fun _ => rfl) (Or.inl rfl) hnext

/-- The one section of a handler, which has no cancellation point. -/
theorem fit_deregister {sockfd : Int} {k : Code} (hk : Fit c false k) :
    Fit c false (deregister sockfd k) := by
  refine fits_lock (fits_forEach ?_ (fits_unlock hk) _)
  intro i next hnext
  refine fit_test ?_ hnext
  exact fit_run (fun _ => rfl) (Or.inr (Or.inr rfl)) (fits_unlock hk)

theorem fit_listenThread : Fit false false listenThread := by
  have hagain : Fit false false (.goto .listenThread) := ⟨rfl, fun h => by cases h⟩
  refine fits_lock (fit_read (fun keepRunning => fits_unlock ?_))
  split
  · exact rfl
  refine fit_call rfl (fun peer => ?_)
  cases peer with
  | none => exact fit_call rfl (fun _ => hagain)
  | some peer =>
    have hclose : Fit false false (run (.close peer.1) (.goto .listenThread)) :=
      fit_call rfl (fun _ => hagain)
    refine fit_call rfl (fun _ => fit_call rfl (fun ok => ?_))
    cases ok
    · exact fit_call rfl (fun _ => hclose)
    refine fit_call rfl (fun tid => ?_)
    cases tid with
    | none => exact fit_call rfl (fun _ => hclose)
    | some tid =>
      refine fit_addPeer (fun id => ?_)
      split
      · exact fit_call rfl (fun _ => fit_call rfl (fun _ => fit_call rfl (fun _ => hagain)))
      · exact fit_call rfl (fun _ => hagain)

theorem fit_receive (sockfd : Int) : Fit true false (receive sockfd) := by
  refine fit_call rfl (fun b => ?_)
  cases b with
  | none =>
    refine fit_call rfl (fun _ => fit_deregister ?_)
    exact fit_call rfl (fun _ => ⟨rfl, rfl⟩)
  | some b => exact fit_call rfl (fun _ => fit_call rfl (fun _ => ⟨rfl, fun _ => rfl⟩))

theorem fit_call_main (cmd : Command) : Fit false false (call cmd) := by
  have hagain : Fit false false (.goto .main) := ⟨rfl, fun h => by cases h⟩
  cases cmd with
  | connectPeer ip port => exact fit_connectPeer (fun _ => hagain)
  | listPeers => exact fit_listPeers hagain
  | sendMessage id msg => exact fit_sendMessage (fun _ => hagain)
  | disconnectPeer id => exact fit_disconnectPeer (fun _ => hagain)
  | shutdown => exact fit_shutdown rfl

end Code

/-- **Every thread keeps the discipline.** -/
theorem disciplined : Disciplined machine discipline where
  bodies l := by
    cases l with
    | main => exact Code.fit_call rfl Code.fit_call_main
    | listenThread => exact Code.fit_listenThread
    | peerHandleThread sockfd =>
      refine ⟨rfl, ?_, rfl, fun _ => rfl⟩
      intro x hx
      unfold Code.peerCleanup at hx
      split at hx
      · rw [List.mem_singleton] at hx
        subst hx
        rfl
      · cases hx
    | receive sockfd => exact Code.fit_receive sockfd
  starts x r t l hst _ := by
    cases x with
    | pthreadCreate sockfd =>
      cases r with
      | none => cases hst
      | some tid =>
        cases hst
        rfl
    | _ => cases hst
  pending mem t h := by
    cases t with
    | handler tid => rfl
    | main | listener => cases h

/-! ### The ways through an operation -/

namespace Code

open Prog

/-- On every way out of the operation the mutex has been taken and released `n` times in
turns. -/
def Locks (k : Code) (n : Nat) : Prop := k.Makes (fun es => es = pairs n)

variable {P : List Event → Prop}

theorem makes_test {f : ChatApp → Bool} {yes no : Code} (hyes : yes.Makes P) (hno : no.Makes P) :
    (test f yes no).Makes P := by
  refine makes_stmt (fun b => ?_)
  cases b
  · exact hno
  · exact hyes

theorem makes_run {x : Stmt} {k : Code} (hk : k.Makes P) : (run x k).Makes P :=
  makes_stmt (fun _ => hk)

theorem makes_addPeer {sockfd : Int} {ip : List UInt8} {port : Int} {tid : Tid} {k : Int → Code}
    (hk : ∀ id, (k id).Makes (fun es => P (.lock :: .unlock :: es))) :
    (chatappAddPeer sockfd ip port tid k).Makes P := by
  refine makes_lock (makes_test (makes_run (makes_unlock (hk _))) ?_)
  refine makes_forEach ?_ (makes_unlock (hk _)) _
  intro i next hnext
  exact makes_test (makes_run (makes_stmt (fun id => makes_unlock (hk id)))) hnext

theorem makes_listPeers {k : Code} (hk : k.Makes (fun es => P (.lock :: .unlock :: es))) :
    (chatappListPeers k).Makes P := by
  refine makes_run (makes_lock (makes_forEach ?_ (makes_unlock hk) _))
  intro i next hnext
  exact makes_test (makes_stmt (fun line => makes_run hnext)) hnext

theorem makes_sendMessage {id : Int} {msg : List UInt8} {k : Int → Code}
    (hk : ∀ ret, (k ret).Makes (fun es => P (.lock :: .unlock :: es))) :
    (chatappSendMessage id msg k).Makes P := by
  refine makes_lock (makes_forEach ?_ (makes_unlock (makes_run (hk _))) _)
  intro i next hnext
  exact makes_test (makes_stmt (fun fd => makes_run (makes_unlock (hk _)))) hnext

theorem makes_disconnectPeer {id : Int} {k : Int → Code}
    (hk : ∀ ret, (k ret).Makes (fun es => P (.lock :: .unlock :: es))) :
    (chatappDisconnectPeer id k).Makes P := by
  refine makes_lock (makes_forEach ?_ (makes_unlock (makes_run (hk _))) _)
  intro i next hnext
  refine makes_test (makes_stmt (fun fd => makes_run (makes_stmt (fun tid => ?_)))) hnext
  exact makes_run (makes_run (makes_run (makes_unlock (hk _))))

/-- `chatapp_shutdown` takes the mutex twice. -/
theorem makes_shutdown {k : Code}
    (hk : k.Makes (fun es => P (.lock :: .unlock :: .lock :: .unlock :: es))) :
    (chatappShutdown k).Makes P := by
  refine makes_lock (makes_run (makes_unlock (makes_run (makes_run (makes_lock ?_)))))
  refine makes_forEach ?_ (makes_unlock hk) _
  intro i next hnext
  refine makes_test (makes_stmt (fun fd => makes_run (makes_stmt (fun tid => ?_)))) hnext
  exact makes_run (makes_run hnext)

theorem makes_deregister {sockfd : Int} {k : Code}
    (hk : k.Makes (fun es => P (.lock :: .unlock :: es))) : (deregister sockfd k).Makes P := by
  refine makes_lock (makes_forEach ?_ (makes_unlock hk) _)
  intro i next hnext
  exact makes_test (makes_run (makes_unlock hk)) hnext

/-- `chatapp_connect_peer` takes the mutex in `chatapp_add_peer` only. -/
theorem makes_connectPeer {ip : List UInt8} {port : Int} {k : Int → Code}
    (hfail : ∀ ret, (k ret).Makes P)
    (hadd : ∀ ret, (k ret).Makes (fun es => P (.lock :: .unlock :: es))) :
    (chatappConnectPeer ip port k).Makes P := by
  refine makes_stmt (fun fd => ?_)
  cases fd with
  | none => exact makes_run (hfail _)
  | some sockfd =>
    have hclose : (run (.close sockfd) (k (-1))).Makes P := makes_run (hfail _)
    refine makes_stmt (fun ok => ?_)
    cases ok
    · exact makes_run hclose
    refine makes_stmt (fun ok => ?_)
    cases ok
    · exact makes_run hclose
    refine makes_run (makes_stmt (fun ok => ?_))
    cases ok
    · exact makes_run hclose
    refine makes_stmt (fun tid => ?_)
    cases tid with
    | none => exact makes_run hclose
    | some tid =>
      refine makes_addPeer (fun id => ?_)
      split
      · exact makes_run (makes_run (makes_run (hadd _)))
      · exact makes_run (hadd _)

end Code

/-- The mutex is taken and released once on every way out of each operation and of the exit
path of a handler, twice in `chatapp_shutdown`, and at most once in `chatapp_connect_peer`. -/
theorem released_once :
    (∀ sockfd ip port tid, (Code.chatappAddPeer sockfd ip port tid fun _ => .exit).Locks 1) ∧
      (Code.chatappListPeers .exit).Locks 1 ∧
      (∀ id msg, (Code.chatappSendMessage id msg fun _ => .exit).Locks 1) ∧
      (∀ id, (Code.chatappDisconnectPeer id fun _ => .exit).Locks 1) ∧
      (Code.chatappShutdown .exit).Locks 2 ∧
      (∀ sockfd, (Code.deregister sockfd .exit).Locks 1) ∧
      ∀ ip port, (Code.chatappConnectPeer ip port fun _ => .exit).Makes
        (fun es => es = pairs 0 ∨ es = pairs 1) := by
  refine ⟨?_, ?_, ?_, ?_, ?_, ?_, ?_⟩
  · exact fun _ _ _ _ => Code.makes_addPeer (fun _ => Prog.makes_exit rfl)
  · exact Code.makes_listPeers (Prog.makes_exit rfl)
  · exact fun _ _ => Code.makes_sendMessage (fun _ => Prog.makes_exit rfl)
  · exact fun _ => Code.makes_disconnectPeer (fun _ => Prog.makes_exit rfl)
  · exact Code.makes_shutdown (Prog.makes_exit rfl)
  · exact fun _ => Code.makes_deregister (Prog.makes_exit rfl)
  · exact fun _ _ => Code.makes_connectPeer (fun _ => Prog.makes_exit (Or.inl rfl))
      (fun _ => Prog.makes_exit (Or.inr rfl))

/-! ### The main result -/

theorem sound_launched (port fd : Int) : Sound machine discipline (launched port fd) where
  threads t th ht := by
    cases t with
    | main =>
      cases ht
      exact ⟨⟨rfl, fun h => (by cases h)⟩, fun _ h => (by cases h), fun h => (by cases h)⟩
    | listener =>
      cases ht
      exact ⟨⟨rfl, fun h => (by cases h)⟩, fun _ h => (by cases h), fun h => (by cases h)⟩
    | handler tid => cases ht
  owner t h := by cases h
  log t := ⟨0, rfl⟩

/-- **The peer mutex is never orphaned.**  In every state that the threads reach from the launch,
at most one thread holds the mutex; a thread that requests it does not hold it; a thread that
has ended or has been cancelled does not hold it; every thread has taken and released it in
turns; every way through the code of a thread releases what it has taken; and every way out
of an operation has released the mutex as often as it was taken, which is once. -/
theorem mutex_never_orphaned (port fd : Int)
    (s : Locking.State Stmt Res Label ThreadId Mem)
    (hr : Reachable machine.step Any (launched port fd) s) :
    (∀ t u, s.Holds t → s.Holds u → t = u) ∧
      (∀ t, s.Requests t → ¬ s.Holds t) ∧
      (∀ t, s.Gone t → ¬ s.Holds t) ∧
      (∀ t, ∃ n, s.events t = pairs n ∨ s.events t = pairs n ++ [.lock]) ∧
      (∀ l es, (Code.body l).Path es → ∃ n, es = pairs n) ∧
      (∀ sockfd ip port tid, (Code.chatappAddPeer sockfd ip port tid fun _ => .exit).Locks 1) ∧
      (Code.chatappListPeers .exit).Locks 1 ∧
      (∀ id msg, (Code.chatappSendMessage id msg fun _ => .exit).Locks 1) ∧
      (∀ id, (Code.chatappDisconnectPeer id fun _ => .exit).Locks 1) ∧
      (Code.chatappShutdown .exit).Locks 2 ∧
      (∀ sockfd, (Code.deregister sockfd .exit).Locks 1) ∧
      ∀ ip port, (Code.chatappConnectPeer ip port fun _ => .exit).Makes
        (fun es => es = pairs 0 ∨ es = pairs 1) := by
  have hs : Sound machine discipline s :=
    hr.invariant (sound_launched port fd) (fun _ _ _ hs _ hn => hs.step disciplined hn)
  refine ⟨fun t u => hs.holds_unique, fun t => hs.requests, fun t => hs.gone, ?_, ?_,
    released_once⟩
  · intro t
    obtain ⟨n, hn⟩ := hs.log t
    refine ⟨n, ?_⟩
    split at hn
    · exact Or.inr hn
    · rw [List.append_nil] at hn
      exact Or.inl hn
  · intro l es hes
    obtain ⟨n, ⟨-, h⟩ | ⟨h, -⟩⟩ := (disciplined.bodies l).path hes
    · exact ⟨n, h⟩
    · cases h

/-- The listener in its first locked section, and the main thread at `chatapp_list_peers`. -/
theorem mutex_never_orphaned_two : ∃ s : Locking.State Stmt Res Label ThreadId Mem,
    Reachable machine.step Any (launched 5000 3) s ∧ s.Holds .listener ∧ s.Requests .main ∧
      ∀ t, s.Holds t → t = .listener := by
  have hr : Reachable machine.step Any (launched 5000 3) _ :=
    ⟨[.run .listener .none, .run .listener .none, .run .main .none,
      .run .main (.command .listPeers), .run .main .none], exec_run rfl⟩
  refine ⟨_, hr, ?_, ⟨_, _, rfl, rfl⟩, fun t ht =>
    (mutex_never_orphaned 5000 3 _ hr).1 t .listener ht ?_⟩
  · exact Nat.zero_lt_one
  · exact Nat.zero_lt_one

end EmbeddedLinux.Chat
