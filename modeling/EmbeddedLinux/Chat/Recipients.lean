import EmbeddedLinux.Chat.Ownership

/-!
# Right recipients, no ghost peers, own slots

The invariant `Owned` holds on every run without a stale `close` and without a late
registration (`safe_run`).  From it, on these runs:

* `send_right_recipient`: the number `chatapp_send_message` sends on refers to the
  connection the ID was returned for;
* `no_ghost_peers`: an active slot's handler is in its `recv` loop on the slot's
  number, and the number is open.

If moreover no handler looks for its slot when its number already belongs to
another connection (`StaleDeregister`), then `deregister_own_slot`: it clears the
slot of its own connection only.

Each of the three fails on a short run that does not meet its condition:
`send_wrong_recipient`, `ghost_peer` and `deregister_other_slot`, with the lowest
free number in every `accept`.
-/

namespace EmbeddedLinux.Chat

open Transition CString

/-- A handler looks for its slot when its number belongs to another connection. -/
def StaleDeregister (s : State) : Action → Prop
  | .deregister c => s.Reused c
  | _ => False

instance (s : State) : (a : Action) → Decidable (StaleDeregister s a)
  | .deregister _ => inferInstanceAs (Decidable (s.Reused _))
  | .socket _ _ _ | .dial _ _ | .spawn _ _ _ | .failClose _ _ | .addPeer _ _ | .refuseClose _ _
  | .refuseCancel _ _ | .listPeers | .sendMessage _ _ | .disconnectPeer _ | .stop
  | .closeListener | .join | .closeAll | .destroy | .check | .callAccept | .accept _ _ _
  | .recv _ _ | .display _ | .announce _ | .loopClose _ | .cleanupClose _ | .cancelled _ =>
    instDecidableFalse

/-! ### Runs to look at -/

/-- Standard input, output and error. -/
def stdio : Int → Bool := fun n => decide (0 ≤ n ∧ n ≤ 2)

/-- `listen_thread` takes a connection from `10.0.0.2:5000`, up to `chatapp_add_peer`. -/
def acceptPeer (c : ConnId) (fd : Int) : List Action :=
  [.check, .callAccept, .accept (text "10.0.0.2") 5000 (some fd), .spawn .listener c true]

/-- The remote closes connection `c`; its handler up to the lock. -/
def remoteCloses (c : ConnId) : List Action := [.recv c true, .announce c]

/-- The invariant of the runs in order. -/
structure Safe (s : State) : Prop where
  owned : Owned s.toWorld
  listens : s.main.listening = true → s.Listens

theorem safe_initial (port : Int) (fd : Nat) (inherited : Int → Bool) :
    Safe (initial port fd inherited) := by
  refine ⟨⟨idsOk_setup port fd, ?_, ?_, ?_, ?_, ?_, fun c _ => ⟨rfl, rfl⟩⟩, fun _ => ⟨?_, ?_⟩⟩
  · intro i hi
    cases hi
  · intro c hc
    cases hc
  · intro c hc
    cases hc
  · intro c k hk
    cases hk
  · intro c c' k hk
    cases hk
  · show (if (fd : Int) = fd then _ else _) = _
    rw [if_pos rfl]
  · intro c
    show (-1 : Int) ≠ fd
    omega

theorem State.leave_toWorld (s : State) (t : Creator) : (s.leave t).toWorld = s.toWorld := by
  cases t <;> rfl

/-- A thread that is making a connection has not closed the listening socket. -/
theorem listening_of_leave {s s' : State} {t : Creator} {c : ConnId} (hc : s.creating t = some c)
    (h : (s'.leave t).main.listening = true) (hm : s'.main = s.main) :
    s.main.listening = true := by
  cases t with
  | main =>
    rw [State.creating] at hc
    split at hc
    · rename_i e
      rw [e]
      rfl
    · cases hc
  | listener =>
    rw [← hm]
    exact h

/-! ### One step -/

/-- A number no other connection owns, as the condition on a `close` says it. -/
theorem not_reused {w : World} {c : ConnId} (h : ¬ w.Reused c) :
    ∀ c', c' ≠ c → w.fds (w.sockfd c) ≠ some (.conn c') := by
  intro c' hne hf
  exact h (World.reused_iff.mpr ⟨c', hne, hf⟩)

theorem doReply_sendMessage (w : World) (id : Int) (msg : List UInt8) :
    w.doReply (chatappSendMessage w.app id msg) = w := by
  rw [World.doReply, chatappSendMessage_app]
  obtain ⟨-, hc, -⟩ | ⟨i, -, -, -, hc⟩ := chatappSendMessage_cases w.app id msg <;> rw [hc] <;> rfl

/-- **A step without a stale `close` or a late registration keeps the invariant.** -/
theorem owned_effect {s : State} {a : Action} (hs : Safe s) (he : Enabled s a)
    (ho : InOrder s a) : Owned (effect s a).toWorld := by
  have h := hs.owned
  cases a with
  | socket ip port fd =>
    cases fd with
    | none => exact h
    | some fd => exact h.newConn he.2.2 rfl
  | dial c ok =>
    have hst := he.2
    refine h.setStage (by rw [hst]; simp) (Or.inr ⟨?_, by rw [hst]; rfl⟩)
    cases ok <;> rfl
  | spawn t c ok =>
    have hst := he.2
    have hearly : (s.conn c).stage.early = true := by rw [hst]; rfl
    have hnd : (s.conn c).stage ≠ .done := by rw [hst]; simp
    cases ok with
    | false => exact h.setStage hnd (Or.inr ⟨rfl, hearly⟩)
    | true =>
      obtain ⟨-, h2, h3, h4⟩ := h.early c hearly
      refine h.setConn _ rfl rfl (Or.inl (h.noSlot_of_stage hnd)) ?_ ?_ ?_
      · intro e
        cases e
      · intro _
        exact ⟨by simp, h2, h3, fun _ => h4⟩
      · intro hc
        exact absurd (h.unborn c hc).1 hnd
  | failClose t c =>
    have hst := he.2
    have hnd : (s.conn c).stage ≠ .done := by rw [hst]; simp
    obtain ⟨-, -, -, h4⟩ := h.early c (by rw [hst]; rfl)
    have h' : Owned (s.setStage c .done) := h.setStage hnd (Or.inl rfl)
    have hk : (s.setStage c .done).conn c = { s.conn c with stage := .done } :=
      World.setConn_self _ _ _
    show Owned (State.leave _ t).toWorld
    rw [State.leave_toWorld]
    show Owned ((s.setStage c .done).closeFd c (s.sockfd c))
    refine h'.closeFd ?_ (h.noSlot_of_stage hnd) ?_ ?_
    · -- the number is this connection's, so it is no other's
      intro c' hne hf
      rw [show (s.setStage c .done).fds = s.fds from rfl, h4] at hf
      cases hf
      exact hne rfl
    · rw [hk]; rfl
    · rw [hk]
      intro e
      cases e
  | addPeer t c =>
    have hin : (s.conn c).handler.inTime = true := by
      have := ho.2
      rw [LateAdd] at this
      simpa using this
    have h' := h.register he.2 hin
    show Owned (ite _ _ _ : State).toWorld
    split
    · exact h'
    · rw [State.leave_toWorld]
      exact h'
  | refuseClose t c =>
    have hst := he.2
    have hnd : (s.conn c).stage ≠ .done := by rw [hst]; simp
    have hc := h.closeFd (not_reused ho.1) (h.noSlot_of_stage hnd) (by rw [hst]; rfl)
      (by rw [hst]; intro e; cases e)
    exact hc.setStage hnd (Or.inl rfl)
  | refuseCancel t c =>
    have hst := he.2
    have hnd : (s.conn c).stage ≠ .done := by rw [hst]; simp
    have hc := h.pthreadCancel (h.noSlot_of_stage hnd) (by rw [hst]; rfl) (by rw [hst]; simp)
    show Owned (State.leave _ t).toWorld
    rw [State.leave_toWorld]
    refine hc.setStage ?_ (Or.inl rfl)
    rw [World.pthreadCancel, World.setConn_self]
    exact hnd
  | sendMessage id msg =>
    show Owned (s.doReply (chatappSendMessage s.app id msg))
    rw [doReply_sendMessage]
    exact h
  | disconnectPeer id => exact h.disconnectPeer id
  | stop => exact h.sameApp rfl rfl rfl
  | closeListener =>
    -- the number is the listening socket's, so no connection loses its own
    have hl := hs.listens (by rw [show s.main = .stopping from he]; rfl)
    have hkeep : ∀ c f, s.fds f = some (.conn c) →
        Function.update s.fds s.app.listenerSocket none f = some (.conn c) := by
      intro c f hf
      rw [Function.update_of_ne]
      · exact hf
      · rintro rfl
        rw [hl.1] at hf
        cases hf
    refine ⟨h.ids, ?_, ?_, ?_, h.id_lt, h.id_inj, h.unborn⟩
    · intro i hi
      obtain ⟨h1, h2, h3, h4, h5, h6⟩ := h.slot i hi
      exact ⟨h1, h2, hkeep _ _ h3, h4, h5, h6⟩
    · intro c hc
      obtain ⟨h1, h2, h3, h4⟩ := h.early c hc
      exact ⟨h1, h2, h3, hkeep _ _ h4⟩
    · intro c hc
      obtain ⟨h1, h2, h3, h4⟩ := h.adding c hc
      exact ⟨h1, h2, h3, fun ht => hkeep _ _ (h4 ht)⟩
  | closeAll => exact h.closeAll
  | accept ip port fd =>
    cases fd with
    | none => exact h
    | some fd => exact h.newConn he.2.2 rfl
  | recv c gone =>
    have hpc : (s.conn c).handler = .receiving := he
    refine h.setHandler (by rw [hpc]; simp) ?_ (Or.inl ⟨?_, by rw [hpc]; rfl⟩) <;>
      cases gone <;> simp [HandlerPc.inTime]
  | display c =>
    have hpc : (s.conn c).handler = .displaying := he
    exact h.setHandler (by rw [hpc]; simp) (by simp) (Or.inl ⟨rfl, by rw [hpc]; rfl⟩)
  | announce c =>
    have hpc : (s.conn c).handler = .leaving := he
    exact h.setHandler (by rw [hpc]; simp) (by simp) (Or.inl ⟨rfl, by rw [hpc]; rfl⟩)
  | deregister c =>
    have hpc : (s.conn c).handler = .locking := he
    have h' := h.deregister (s.sockfd c)
    have hns := h.noSlot_deregister (c := c)
    rw [World.doReply_nil _ (deregister_calls _ _)] at h'
    show Owned ((s.doReply (deregister s.app (s.sockfd c))).setHandler c .closing)
    rw [World.doReply_nil _ (deregister_calls _ _)]
    exact h'.setHandler (by show (s.conn c).handler ≠ _; rw [hpc]; simp) (by simp)
      (Or.inr ⟨rfl, hns⟩)
  | loopClose c =>
    have hpc : (s.conn c).handler = .closing := he
    have hin : (s.conn c).handler.inTime = false := by rw [hpc]; rfl
    have h0 : (s.conn c).handler ≠ .absent := by rw [hpc]; simp
    have hc := h.closeFd (not_reused ho.1) (h.noSlot_of_handler hin) (h.not_early h0)
      (fun _ => hin)
    exact hc.setHandler h0 (by simp) (Or.inr ⟨rfl, h.noSlot_of_handler hin⟩)
  | cleanupClose c =>
    have hin : (s.conn c).handler.inTime = false := by
      rcases he with he | he <;> rw [he] <;> rfl
    have h0 : (s.conn c).handler ≠ .absent := by
      rcases he with he | he <;> rw [he] <;> simp
    have hns := h.noSlot_of_handler hin
    show Owned ((s.peerCleanup c).setHandler c .ended)
    rw [World.peerCleanup]
    split
    · have hc := h.closeFd (not_reused ho.1) hns (h.not_early h0) (fun _ => hin)
      exact hc.setHandler h0 (by simp) (Or.inr ⟨rfl, hns⟩)
    · exact h.setHandler h0 (by simp) (Or.inr ⟨rfl, hns⟩)
  | cancelled c =>
    have h0 : (s.conn c).handler ≠ .absent := by
      intro e
      have := he.2
      rw [e] at this
      cases this
    refine h.setHandler h0 ?_ (Or.inr ⟨?_, h.noSlot_of_cancel he.1⟩) <;>
      cases (s.conn c).handler <;> simp [HandlerPc.afterCancel, HandlerPc.inTime]
  | listPeers | join | destroy | check | callAccept => exact h

/-- The listening socket stays the main thread's until it closes it. -/
theorem listens_effect {s : State} {a : Action} (hs : Safe s) (he : Enabled s a)
    (hl : (effect s a).main.listening = true) : (effect s a).Listens := by
  have h := hs.owned
  have hready : s.main = .ready → s.Listens := fun e => hs.listens (by rw [e]; rfl)
  cases a with
  | socket ip port fd =>
    cases fd with
    | none => exact hready he.1
    | some fd => exact (hready he.1).newConn he.2.2
  | dial c ok => exact (hs.listens hl).setConn rfl
  | spawn t c ok => cases ok <;> exact (hs.listens hl).setConn rfl
  | failClose t c =>
    have hs' := hs.listens (listening_of_leave he.1 hl rfl)
    show (State.leave _ t).toWorld.Listens
    rw [State.leave_toWorld]
    exact (hs'.closeFd (hs'.2 c)).setConn rfl
  | addPeer t c =>
    have hmain : s.main.listening = true := by
      change (ite _ _ _ : State).main.listening = true at hl
      split at hl
      · exact hl
      · exact listening_of_leave he.1 hl rfl
    have hs' := hs.listens hmain
    have hreg : (s.register c).Listens := by
      rw [World.register, World.doReply_nil _ (chatappAddPeer_calls _ _ _ _ _)]
      have h' := hs'.withApp (reply_listenerSocket s.app
        (.addPeer (s.conn c).sockfd (s.conn c).ip (s.conn c).port c))
      split <;> exact h'.setConn rfl
    show (ite _ _ _ : State).toWorld.Listens
    split
    · exact hreg
    · rw [State.leave_toWorld]
      exact hreg
  | refuseClose t c =>
    have hs' := hs.listens hl
    exact (hs'.closeFd (hs'.2 c)).setConn rfl
  | refuseCancel t c =>
    have hs' := hs.listens (listening_of_leave he.1 hl rfl)
    show (State.leave _ t).toWorld.Listens
    rw [State.leave_toWorld]
    have h' : (s.pthreadCancel c).Listens := hs'.setConn rfl
    exact h'.setConn rfl
  | listPeers => exact hready he
  | sendMessage id msg =>
    show (s.doReply (chatappSendMessage s.app id msg)).Listens
    rw [doReply_sendMessage]
    exact hready he
  | disconnectPeer id =>
    have hs' := hready he
    have happ := reply_listenerSocket s.app (.disconnectPeer id)
    rw [reply] at happ
    show (s.doReply (chatappDisconnectPeer s.app id)).Listens
    obtain ⟨-, -, hcalls, -⟩ | ⟨k, hk, -, -, -, hcalls⟩ := chatappDisconnectPeer_cases s.app id
    · rw [World.doReply_nil _ hcalls]
      exact hs'.withApp happ
    · rw [World.doReply, hcalls]
      refine (hs'.withApp happ).endPeer ?_
      show (s.app.peers k).sockfd ≠ (chatappDisconnectPeer s.app id).app.listenerSocket
      rw [happ, ← (h.slot k hk).sockfd_eq]
      exact hs'.2 _
  | stop => exact (hready he).withApp rfl
  | closeListener | join | closeAll | destroy => cases hl
  | check | callAccept => exact hs.listens hl
  | accept ip port fd =>
    cases fd with
    | none => exact hs.listens hl
    | some fd => exact (hs.listens hl).newConn he.2.2
  | recv c gone => exact (hs.listens hl).setConn rfl
  | display c => exact (hs.listens hl).setConn rfl
  | announce c => exact (hs.listens hl).setConn rfl
  | deregister c =>
    show ((s.doReply (deregister s.app (s.sockfd c))).setHandler c .closing).Listens
    rw [World.doReply_nil _ (deregister_calls _ _)]
    exact ((hs.listens hl).withApp (reply_listenerSocket s.app (.deregister (s.sockfd c)))).setConn
      rfl
  | loopClose c => exact ((hs.listens hl).closeFd ((hs.listens hl).2 c)).setConn rfl
  | cleanupClose c =>
    show ((s.peerCleanup c).setHandler c .ended).Listens
    rw [World.peerCleanup]
    split
    · exact ((hs.listens hl).closeFd ((hs.listens hl).2 c)).setConn rfl
    · exact (hs.listens hl).setConn rfl
  | cancelled c => exact (hs.listens hl).setConn rfl

/-! ### Whole runs -/

theorem safe_step {s t : State} {a : Action} (hs : Safe s) (ho : InOrder s a)
    (hn : step s a = some t) : Safe t := by
  obtain ⟨he, rfl⟩ := step_eq_some.mp hn
  exact ⟨owned_effect hs he ho, listens_effect hs he⟩

/-- **The invariant of every run in order.** -/
theorem safe_run {port : Int} {fd : Nat} {inherited : Int → Bool} {s : State}
    (hr : Reachable step InOrder (initial port fd inherited) s) : Safe s :=
  hr.invariant (safe_initial port fd inherited) (fun _ _ _ h ho hn => safe_step h ho hn)

/-- **Right recipient.**  On a run in order, what `chatapp_send_message(app, id, msg)`
sends goes to the one connection for which `chatapp_add_peer` returned `id`. -/
theorem send_right_recipient {port : Int} {fd : Nat} {inherited : Int → Bool} {s : State}
    (hr : Reachable step InOrder (initial port fd inherited) s) {id : Int} {m : List UInt8}
    {p : Peer} {b : List UInt8} (hsend : Call.send p b ∈ (chatappSendMessage s.app id m).calls) :
    ∃ c, (s.conn c).id = some id ∧ s.fds p.sockfd = some (.conn c) ∧
      ∀ c', (s.conn c').id = some id → c' = c := by
  have h := (safe_run hr).owned
  obtain ⟨-, hcalls, -⟩ | ⟨i, hi, rfl, -, hcalls⟩ := chatappSendMessage_cases s.app id m
  · rw [hcalls] at hsend
    cases hsend
  · rw [hcalls, List.mem_singleton] at hsend
    cases hsend
    have hp := h.slot i hi
    exact ⟨_, hp.id_eq, hp.fds_eq, fun c' hc' => h.id_inj _ _ _ hc' hp.id_eq⟩

/-- One peer, and a message to it. -/
theorem send_right_recipient_one :
    ∃ s p, exec step (initial 4000 3 stdio) (acceptPeer 0 4 ++ [.addPeer .listener 0]) = some s ∧
      (chatappSendMessage s.app 1 (text "hi")).calls = [.send p (text "hi")] ∧
      ∃ c, (s.conn c).id = some 1 ∧ s.fds p.sockfd = some (.conn c) ∧
        ∀ c', (s.conn c').id = some 1 → c' = c := by
  have hr : Reachable step InOrder (initial 4000 3 stdio) _ :=
    ⟨acceptPeer 0 4 ++ [.addPeer .listener 0], exec_guarded rfl⟩
  refine ⟨_, _, rfl, rfl, ?_⟩
  have hsend := List.mem_singleton_self (Call.send (peerSet peerInit 1 4 (text "10.0.0.2") 5000 0)
    (text "hi"))
  exact send_right_recipient hr (m := text "hi") hsend

/-- The second `close` of connection 0 hits connection 1, and connection 2 gets the
number. -/
def secondClose : List Action :=
  acceptPeer 0 4 ++ [.addPeer .listener 0] ++ remoteCloses 0 ++ [.deregister 0, .loopClose 0] ++
  acceptPeer 1 4 ++ [.addPeer .listener 1, .cleanupClose 0] ++
  acceptPeer 2 4 ++ [.addPeer .listener 2]

/-- **A message to the wrong peer.**  Peer 2 is connection 1, and what is sent to it
goes to connection 2, which is peer 3. -/
theorem send_wrong_recipient :
    ∃ s p, Run step Any (initial 4000 3 stdio) secondClose s ∧ s.main = .ready ∧
      (s.conn 1).id = some 2 ∧ (s.conn 2).id = some 3 ∧
      (chatappSendMessage s.app 2 (text "hi")).calls = [.send p (text "hi")] ∧
      s.fds p.sockfd = some (.conn 2) :=
  ⟨_, _, exec_run rfl, rfl, rfl, rfl, rfl, rfl⟩

/-- A handler is in the exit path of `peer_handle_thread`. -/
def HandlerPc.exiting : HandlerPc → Bool
  | .leaving | .locking | .closing | .popping | .cancelled => true
  | _ => false

/-- **No ghost peers.**  On a run in order, whenever no handler is in its exit
path, every active slot has a handler in its `recv` loop on the slot's number, and that
number is open and is the connection's. -/
theorem no_ghost_peers {port : Int} {fd : Nat} {inherited : Int → Bool} {s : State}
    (hr : Reachable step InOrder (initial port fd inherited) s)
    (hq : ∀ c, (s.conn c).handler.exiting = false) {i : Fin maxPeers}
    (hi : (s.app.peers i).active = true) :
    ((s.conn (s.app.peers i).threadId).handler = .receiving ∨
      (s.conn (s.app.peers i).threadId).handler = .displaying) ∧
    s.sockfd (s.app.peers i).threadId = (s.app.peers i).sockfd ∧
    s.fds (s.app.peers i).sockfd = some (.conn (s.app.peers i).threadId) := by
  have hp := (safe_run hr).owned.slot i hi
  refine ⟨?_, hp.sockfd_eq, hp.fds_eq⟩
  have h1 := hp.inTime
  have h2 := hq (s.app.peers i).threadId
  cases hh : (s.conn (s.app.peers i).threadId).handler <;> rw [hh] at h1 h2 <;>
    simp [HandlerPc.inTime, HandlerPc.exiting] at h1 h2 ⊢

/-- One peer, in its `recv` loop. -/
theorem no_ghost_peers_one :
    ∃ s, exec step (initial 4000 3 stdio) (acceptPeer 0 4 ++ [.addPeer .listener 0]) = some s ∧
      (s.app.peers 0).active = true ∧
      ((s.conn 0).handler = .receiving ∨ (s.conn 0).handler = .displaying) ∧
      s.sockfd 0 = 4 ∧ s.fds 4 = some (.conn 0) := by
  have hr : Reachable step InOrder (initial 4000 3 stdio) _ :=
    ⟨acceptPeer 0 4 ++ [.addPeer .listener 0], exec_guarded rfl⟩
  refine ⟨_, rfl, rfl, no_ghost_peers hr (fun c => ?_) (i := 0) rfl⟩
  cases c with
  | zero => rfl
  | succ c => rfl

/-- The remote closes connection 0 before it is registered. -/
def earlyClose : List Action :=
  acceptPeer 0 4 ++ remoteCloses 0 ++ [.deregister 0, .loopClose 0, .cleanupClose 0,
    .addPeer .listener 0]

/-- **A ghost peer.**  No thread is in one of the sections, and slot 0 is active with a
number that is not open and a handler that has ended. -/
theorem ghost_peer :
    ∃ s, Run step Any (initial 4000 3 stdio) earlyClose s ∧ s.main = .ready ∧
      s.listener = .checking ∧ (∀ c, (s.conn c).handler.exiting = false) ∧
      (s.app.peers 0).active = true ∧ (s.conn (s.app.peers 0).threadId).handler = .ended ∧
      s.fds (s.app.peers 0).sockfd = none := by
  refine ⟨_, exec_run rfl, rfl, rfl, fun c => ?_, rfl, rfl, by decide +kernel⟩
  cases c with
  | zero => rfl
  | succ c => rfl

/-- **A handler only deregisters its own peer**, on a run in order in which no handler
looks for its slot when its number already belongs to another connection. -/
theorem deregister_own_slot {port : Int} {fd : Nat} {inherited : Int → Bool} {s t : State}
    {c : ConnId}
    (hr : Reachable step (fun s a => InOrder s a ∧ ¬ StaleDeregister s a)
      (initial port fd inherited) s)
    (ho : ¬ StaleDeregister s (.deregister c)) (hn : step s (.deregister c) = some t)
    {i : Fin maxPeers} (hi : (s.app.peers i).active = true)
    (hi' : (t.app.peers i).active = false) :
    (s.app.peers i).threadId = c ∧ (s.conn c).id = some (s.app.peers i).id := by
  have h := (safe_run (hr.mono (fun _ _ h => h.1))).owned
  obtain ⟨he, rfl⟩ := step_eq_some.mp hn
  have happ : (effect s (.deregister c)).app = (deregister s.app (s.sockfd c)).app := by
    show ((s.doReply (deregister s.app (s.sockfd c))).setHandler c .closing).app = _
    rw [World.doReply_nil _ (deregister_calls _ _)]
    rfl
  rw [happ] at hi'
  have hp := h.slot i hi
  have ht : (s.app.peers i).threadId = c := by
    by_contra hne
    -- the cleared slot has the handler's number, which is its own connection's
    refine ho (World.reused_iff.mpr ⟨_, hne, ?_⟩)
    obtain ⟨e, -⟩ | ⟨k, -, hkfd, e⟩ := deregister_cases s.app (s.sockfd c)
    · rw [e, hi] at hi'
      cases hi'
    · rw [e, ChatApp.setPeer_peers] at hi'
      split at hi'
      · rename_i hik
        rw [← hkfd, ← hik]
        exact hp.fds_eq
      · rw [hi] at hi'
        cases hi'
  exact ⟨ht, ht ▸ hp.id_eq⟩

/-- One peer, whose remote closes the connection. -/
theorem deregister_own_slot_one :
    ∃ s t, exec step (initial 4000 3 stdio)
        (acceptPeer 0 4 ++ [.addPeer .listener 0] ++ remoteCloses 0) = some s ∧
      step s (.deregister 0) = some t ∧ (s.app.peers 0).active = true ∧
      (t.app.peers 0).active = false ∧ (s.app.peers 0).threadId = 0 ∧
      (s.conn 0).id = some (s.app.peers 0).id := by
  have hr : Reachable step (fun s a => InOrder s a ∧ ¬ StaleDeregister s a)
      (initial 4000 3 stdio) _ :=
    ⟨acceptPeer 0 4 ++ [.addPeer .listener 0] ++ remoteCloses 0, exec_guarded rfl⟩
  exact ⟨_, _, rfl, rfl, rfl, rfl, deregister_own_slot hr (by decide) rfl (i := 0) rfl rfl⟩

/-- Connection 0 is terminated when its handler is about to take the lock, and
connection 1 gets its number and its slot. -/
def terminatedAtLock : List Action :=
  acceptPeer 0 4 ++ [.addPeer .listener 0] ++ remoteCloses 0 ++ [.disconnectPeer 1] ++
  acceptPeer 1 4 ++ [.addPeer .listener 1]

/-- **A handler deregisters another peer.**  The handler of connection 0 clears the
slot of connection 1, which is open and has its handler at `recv`. -/
theorem deregister_other_slot :
    ∃ s t, Run step Any (initial 4000 3 stdio) terminatedAtLock s ∧
      step s (.deregister 0) = some t ∧
      (s.app.peers 0).active = true ∧ (t.app.peers 0).active = false ∧
      (s.app.peers 0).threadId = 1 ∧ (s.conn 1).id = some (s.app.peers 0).id ∧
      (s.conn 1).handler = .receiving ∧ s.fds (s.sockfd 1) = some (.conn 1) :=
  ⟨_, _, exec_run rfl, rfl, rfl, rfl, rfl, rfl, rfl, rfl⟩

end EmbeddedLinux.Chat
