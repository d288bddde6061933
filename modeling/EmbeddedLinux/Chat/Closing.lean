import EmbeddedLinux.Chat.Recipients

/-!
# How often a connection is closed

`World.closes` counts the `close` calls made for a connection.  A connection whose
handler has run to its end has been closed at least twice, on every run
(`closed_twice`): the loop's `close` is followed by the one of `peer_cleanup`, and a
cancellation, which ends in `peer_cleanup` too, is requested only after a `close` by
the requester.  `debt` is the number of calls that a handler's position and its
pending cancellation stand for, and `closes` never falls below it.

So the code closes a connection once exactly as long as its handler has not left its
loop (`Stays`); `ClosedOnce.lean` has this direction.
-/

namespace EmbeddedLinux.Chat

open Transition CString

/-- The number of `close` calls made for `c`. -/
def World.closes (w : World) (c : ConnId) : Nat := w.closed.countP (fun e => e.conn == c)

/-! ### Counting -/

theorem World.closes_closeFd (w : World) (c c' : ConnId) (fd : Int) :
    (w.closeFd c fd).closes c' = w.closes c' + if c = c' then 1 else 0 := by
  simp [World.closes, World.closeFd, List.countP_append, List.countP_cons]

theorem World.closes_endPeer (w : World) (p : Peer) (c : ConnId) :
    (w.endPeer p).closes c = w.closes c + if p.threadId = c then 1 else 0 :=
  w.closes_closeFd p.threadId c p.sockfd

/-! ### At least twice, when the handler has ended -/

/-- A cancellation is pending or about to be requested, after a `close`. -/
def asked (cancel : Bool) (st : Stage) : Nat :=
  if cancel = true ∨ st = .cancelling then 1 else 0

theorem asked_le_one (cancel : Bool) (st : Stage) : asked cancel st ≤ 1 := by
  rw [asked]
  split <;> omega

/-- The `close` calls a handler's position stands for. -/
def HandlerPc.debt (n : Nat) : HandlerPc → Nat
  | .ended => 2
  | .popping => 1 + n
  | _ => n

/-- The `close` calls a connection's record stands for. -/
def Conn.debt (k : Conn) : Nat := k.handler.debt (asked k.cancel k.stage)

structure Owes (w : World) : Prop where
  debt : ∀ c, (w.conn c).debt ≤ w.closes c
  cancelled : ∀ c, (w.conn c).handler = .cancelled → (w.conn c).cancel = true
  sockfd : ∀ c, c < w.conns → 0 ≤ w.sockfd c
  unborn : ∀ c, w.conns ≤ c → (w.conn c).handler = .absent ∧ (w.conn c).stage = .done

namespace Owes

variable {w : World} {c : ConnId}

theorem setConn (h : Owes w) {k : Conn} (hdebt : k.debt ≤ w.closes c)
    (hk : k.handler = .cancelled → k.cancel = true) (hsock : k.sockfd = w.sockfd c)
    (hborn : w.conns ≤ c → k.handler = .absent ∧ k.stage = .done) : Owes (w.setConn c k) := by
  refine ⟨fun c' => ?_, fun c' => ?_, fun c' hc' => ?_, fun c' hc' => ?_⟩
  · rw [World.setConn_conn]
    split
    · rename_i e; rw [e]; exact hdebt
    · exact h.debt c'
  · rw [World.setConn_conn]
    split
    · exact hk
    · exact h.cancelled c'
  · rw [World.setConn_sockfd hsock]
    exact h.sockfd c' hc'
  · rw [World.setConn_conn]
    split
    · rename_i e; exact hborn (e ▸ hc')
    · exact h.unborn c' hc'

theorem lt_conns (h : Owes w) (hc : (w.conn c).handler ≠ .absent ∨ (w.conn c).stage ≠ .done) :
    c < w.conns := by
  by_contra hn
  obtain ⟨h1, h2⟩ := h.unborn c (not_lt.mp hn)
  rcases hc with hc | hc
  · exact hc h1
  · exact hc h2

/-- A connection that exists, with a record that stands for no more calls. -/
theorem setConn_le (h : Owes w) {k : Conn} (hdebt : k.debt ≤ (w.conn c).debt)
    (hk : k.handler = .cancelled → k.cancel = true) (hsock : k.sockfd = w.sockfd c)
    (hc : (w.conn c).handler ≠ .absent ∨ (w.conn c).stage ≠ .done) : Owes (w.setConn c k) :=
  h.setConn (le_trans hdebt (h.debt c)) hk hsock
    (fun hle => absurd (h.lt_conns hc) (not_lt.mpr hle))

/-- A handler moves to a position that stands for no more calls. -/
theorem setHandler (h : Owes w) {pc : HandlerPc} (h0 : (w.conn c).handler ≠ .absent)
    (hdebt : ∀ n, pc.debt n ≤ (w.conn c).handler.debt n)
    (hpc : pc = .cancelled → (w.conn c).cancel = true) : Owes (w.setHandler c pc) :=
  h.setConn_le (hdebt _) hpc rfl (Or.inl h0)

theorem closeFd (h : Owes w) (fd : Int) : Owes (w.closeFd c fd) := by
  refine ⟨fun c' => ?_, h.cancelled, h.sockfd, h.unborn⟩
  rw [World.closes_closeFd]
  exact le_trans (h.debt c') (Nat.le_add_right _ _)

/-- A call for a connection pays for one more in its record. -/
theorem closeFd_setConn (h : Owes w) {k : Conn} {fd : Int} (hdebt : k.debt ≤ (w.conn c).debt + 1)
    (hk : k.handler = .cancelled → k.cancel = true) (hsock : k.sockfd = w.sockfd c)
    (hborn : w.conns ≤ c → k.handler = .absent ∧ k.stage = .done) :
    Owes ((w.closeFd c fd).setConn c k) := by
  refine (h.closeFd fd).setConn ?_ hk hsock hborn
  rw [World.closes_closeFd, if_pos rfl]
  have := h.debt c
  omega

theorem withApp (h : Owes w) (app : ChatApp) : Owes { w with app := app } :=
  ⟨h.debt, h.cancelled, h.sockfd, h.unborn⟩

theorem newConn (h : Owes w) {fd : Int} {ip : List UInt8} {port : Int} {st : Stage} (hfd : 0 ≤ fd)
    (hst : st.early = true) : Owes (w.newConn fd ip port st) := by
  have hold := fun c' => w.newConn_of_ne fd ip port st (c := c')
  have hnew := w.newConn_self fd ip port st
  refine ⟨fun c' => ?_, fun c' => ?_, fun c' hc' => ?_, fun c' hc' => ?_⟩
  · by_cases hne : c' = w.conns
    · subst hne
      rw [hnew]
      have : (Conn.mk fd ip port st .absent false none).debt = 0 := by
        cases st <;> first | rfl | cases hst
      omega
    · rw [hold c' hne]
      exact h.debt c'
  · by_cases hne : c' = w.conns
    · subst hne
      rw [hnew]
      intro e
      cases e
    · rw [hold c' hne]
      exact h.cancelled c'
  · by_cases hne : c' = w.conns
    · subst hne
      rw [World.sockfd, hnew]
      exact hfd
    · have hlt : c' < w.conns + 1 := hc'
      rw [w.newConn_sockfd_of_ne fd ip port st hne]
      exact h.sockfd c' (by omega)
  · have hle : w.conns + 1 ≤ c' := hc'
    rw [hold c' (Nat.ne_of_gt hle)]
    exact h.unborn c' (by omega)

/-- Another stage, or a pending cancellation, stands for one call at most. -/
theorem debt_le_succ (k : Conn) (st : Stage) (b : Bool) :
    ({ k with stage := st, cancel := b } : Conn).debt ≤ k.debt + 1 := by
  have := asked_le_one b st
  show k.handler.debt (asked b st) ≤ k.handler.debt _ + 1
  cases k.handler <;> simp only [HandlerPc.debt] <;> omega

theorem endPeer (h : Owes w) (p : Peer) : Owes (w.endPeer p) := by
  refine h.closeFd_setConn (debt_le_succ _ _ true) ?_ rfl ?_
  · intro _
    rfl
  · intro hc
    exact h.unborn _ hc

theorem foldl_endPeer (L : List Peer) (h : Owes w) : Owes (L.foldl World.endPeer w) := by
  induction L generalizing w with
  | nil => exact h
  | cons p L ih => exact ih (h.endPeer p)

theorem doReply (h : Owes w) {r : Reply} {L : List Peer} (hr : r.calls = L.flatMap endCalls) :
    Owes (w.doReply r) := by
  rw [World.doReply, hr, World.foldl_endCalls]
  exact (h.withApp r.app).foldl_endPeer L

theorem register (h : Owes w) (hs : (w.conn c).stage = .adding) : Owes (w.register c) := by
  rw [World.register, World.doReply_nil _ (chatappAddPeer_calls _ _ _ _ _)]
  have hc : (w.conn c).handler ≠ .absent ∨ (w.conn c).stage ≠ .done := by
    right
    rw [hs]
    simp
  have hdebt : ∀ st id, st ≠ Stage.cancelling →
      ({ w.conn c with stage := st, id := id } : Conn).debt ≤ (w.conn c).debt := by
    intro st id hst
    simp [Conn.debt, HandlerPc.debt, asked, hs, hst]
  split
  · exact (h.withApp _).setConn_le (hdebt .refused _ (by simp)) (h.cancelled c) rfl hc
  · exact (h.withApp _).setConn_le (hdebt .done _ (by simp)) (h.cancelled c) rfl hc

end Owes

theorem owes_effect {s : State} {a : Action} (h : Owes s.toWorld) (he : Enabled s a) :
    Owes (effect s a).toWorld := by
  cases a with
  | socket ip port fd =>
    cases fd with
    | none => exact h
    | some fd => exact h.newConn he.2.1 rfl
  | accept ip port fd =>
    cases fd with
    | none => exact h
    | some fd => exact h.newConn he.2.1 rfl
  | dial c ok =>
    have hst : (s.conn c).stage = .dialing := he.2
    refine h.setConn_le ?_ (h.cancelled c) rfl (Or.inr (by rw [hst]; simp))
    cases ok <;> simp [Conn.debt, HandlerPc.debt, asked, hst]
  | spawn t c ok =>
    have hst : (s.conn c).stage = .spawning := he.2
    have hc : (s.conn c).handler ≠ .absent ∨ (s.conn c).stage ≠ .done := Or.inr (by rw [hst]; simp)
    cases ok with
    | false =>
      refine h.setConn_le ?_ (h.cancelled c) rfl hc
      simp [Conn.debt, HandlerPc.debt, asked, hst]
    | true =>
      refine h.setConn_le ?_ (fun e => by cases e) rfl hc
      have hask : asked (s.conn c).cancel .adding = asked (s.conn c).cancel (s.conn c).stage := by
        simp [asked, hst]
      have hle := asked_le_one (s.conn c).cancel (s.conn c).stage
      show asked (s.conn c).cancel .adding ≤ (s.conn c).handler.debt _
      rw [hask]
      cases (s.conn c).handler <;> simp only [HandlerPc.debt] <;> omega
  | failClose t c =>
    have hst : (s.conn c).stage = .failing := he.2
    show Owes (State.leave _ t).toWorld
    rw [State.leave_toWorld]
    exact h.closeFd_setConn (Owes.debt_le_succ (s.conn c) .done _) (h.cancelled c) rfl
      (fun hc => ⟨(h.unborn c hc).1, rfl⟩)
  | addPeer t c =>
    have hreg := h.register he.2
    show Owes (ite _ _ _ : State).toWorld
    split
    · exact hreg
    · rw [State.leave_toWorld]
      exact hreg
  | refuseClose t c =>
    have hst : (s.conn c).stage = .refused := he.2
    refine h.closeFd_setConn (Owes.debt_le_succ (s.conn c) .cancelling _) (h.cancelled c) rfl ?_
    intro hc
    have := (h.unborn c hc).2
    rw [hst] at this
    cases this
  | refuseCancel t c =>
    have hst : (s.conn c).stage = .cancelling := he.2
    show Owes (State.leave _ t).toWorld
    rw [State.leave_toWorld]
    have hw : (s.pthreadCancel c).setStage c .done =
        s.setConn c { s.conn c with cancel := true, stage := .done } := by
      simp [World.pthreadCancel, World.setStage, World.setConn]
    rw [hw]
    refine h.setConn_le ?_ (fun _ => rfl) rfl (Or.inr (by rw [hst]; simp))
    simp [Conn.debt, HandlerPc.debt, asked, hst]
  | sendMessage id msg =>
    show Owes (s.doReply (chatappSendMessage s.app id msg))
    rw [doReply_sendMessage]
    exact h
  | disconnectPeer id =>
    obtain ⟨-, -, hcalls, -⟩ | ⟨k, -, -, -, -, hcalls⟩ := chatappDisconnectPeer_cases s.app id
    · exact h.doReply (L := []) hcalls
    · exact h.doReply (L := [s.app.peers k]) (by rw [hcalls]; simp)
  | stop => exact h.withApp _
  | closeListener => exact ⟨h.debt, h.cancelled, h.sockfd, h.unborn⟩
  | closeAll => exact h.doReply (closeAll_calls s.app)
  | recv c gone =>
    have hpc : (s.conn c).handler = .receiving := he
    refine h.setHandler (by rw [hpc]; simp) (fun n => ?_) ?_
    · rw [hpc]
      cases gone <;> exact le_rfl
    · cases gone <;> simp
  | display c =>
    have hpc : (s.conn c).handler = .displaying := he
    refine h.setHandler (by rw [hpc]; simp) (fun n => ?_) (by simp)
    rw [hpc]
    exact le_rfl
  | announce c =>
    have hpc : (s.conn c).handler = .leaving := he
    refine h.setHandler (by rw [hpc]; simp) (fun n => ?_) (by simp)
    rw [hpc]
    exact le_rfl
  | deregister c =>
    have hpc : (s.conn c).handler = .locking := he
    show Owes ((s.doReply (deregister s.app (s.sockfd c))).setHandler c .closing)
    rw [World.doReply_nil _ (deregister_calls _ _)]
    refine (h.withApp _).setHandler ?_ (fun n => ?_) (by simp)
    · show (s.conn c).handler ≠ .absent
      rw [hpc]
      simp
    · show n ≤ (s.conn c).handler.debt n
      rw [hpc]
      exact le_rfl
  | loopClose c =>
    have hpc : (s.conn c).handler = .closing := he
    refine h.closeFd_setConn ?_ (by simp) rfl ?_
    · show ({ s.conn c with handler := .popping } : Conn).debt ≤ _
      simp only [Conn.debt, HandlerPc.debt, hpc]
      omega
    · intro hc
      have := (h.unborn c hc).1
      rw [hpc] at this
      cases this
  | cleanupClose c =>
    have hpc : (s.conn c).handler = .popping ∨ (s.conn c).handler = .cancelled := he
    have hne : (s.conn c).handler ≠ .absent := by
      rcases hpc with hpc | hpc <;> rw [hpc] <;> simp
    show Owes ((s.peerCleanup c).setHandler c .ended)
    rw [World.peerCleanup, if_pos (h.sockfd c (h.lt_conns (Or.inl hne)))]
    refine h.closeFd_setConn ?_ (by simp) rfl ?_
    · show 2 ≤ _
      rcases hpc with hpc | hpc
      · simp only [Conn.debt, HandlerPc.debt, hpc]
        omega
      · have := h.cancelled c hpc
        simp [Conn.debt, HandlerPc.debt, asked, hpc, this]
    · intro hc
      exact absurd (h.unborn c hc).1 hne
  | cancelled c =>
    have hcan : (s.conn c).cancel = true := he.1
    have hpt := he.2
    have h0 : (s.conn c).handler ≠ .absent := by
      intro e
      rw [e] at hpt
      cases hpt
    -- with the request pending one call has been made, and one more in `popping`
    refine h.setConn_le ?_ (fun _ => hcan) rfl (Or.inl h0)
    show ({ s.conn c with handler := (s.conn c).handler.afterCancel } : Conn).debt ≤ _
    cases hh : (s.conn c).handler <;> rw [hh] at hpt <;>
      simp [HandlerPc.cancelPoint, HandlerPc.afterCancel, Conn.debt, HandlerPc.debt, asked, hcan,
        hh] at hpt ⊢
  | listPeers | join | destroy | check | callAccept => exact h

/-- **A connection whose handler has ended has been closed at least twice.** -/
theorem closed_twice {port : Int} {fd : Nat} {inherited : Int → Bool} {s : State}
    (hr : Reachable step Any (initial port fd inherited) s) {c : ConnId}
    (hc : (s.conn c).handler = .ended) : 2 ≤ s.closes c := by
  have h0 : Owes (initial port fd inherited).toWorld := by
    refine ⟨fun c => le_rfl, fun c hc => ?_, fun c hc => absurd hc (Nat.not_lt_zero c),
      fun c _ => ⟨rfl, rfl⟩⟩
    cases hc
  have h : Owes s.toWorld := by
    refine hr.invariant (P := fun s => Owes s.toWorld) h0 ?_
    intro t a u ht _ hn
    obtain ⟨he, rfl⟩ := step_eq_some.mp hn
    exact owes_effect ht he
  have := h.debt c
  rw [Conn.debt, hc] at this
  exact this

end EmbeddedLinux.Chat
