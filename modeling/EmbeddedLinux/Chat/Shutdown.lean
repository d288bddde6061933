import EmbeddedLinux.Chat.Order

/-!
# Shutting down

`chatapp_shutdown` clears `running`, closes the listening socket, joins the listener,
ends every peer that is still in the table, and destroys the mutex.  The handlers are
cancelled and not joined.  Two things depend on where the other threads are at a certain
moment:

* `shutdown_is_last`: no thread takes the mutex after `chatapp_shutdown` has released it
  for the last time, if and only if every handler has run its locked section by then;
* `listener_lets_go`: the main thread does not wait for the listener in vain, if and
  only if the listener is not inside `accept` when the listening socket is closed.

A handler may also run that section although a cancellation is pending, since `recv`
may have returned before the request came, and the lock is no cancellation point.
-/

namespace EmbeddedLinux.Chat

open Transition CString

/-! ### The mutex after its last release -/

/-- The action is a locked section: it locks and unlocks `app->mutex`, and in no other
action `app->peers` is read or written. -/
def Action.locks : Action → Bool
  | .addPeer _ _ | .listPeers | .sendMessage _ _ | .disconnectPeer _ | .stop | .closeAll
  | .check | .deregister _ => true
  | _ => false

/-- From the last release of the mutex on, only a handler can take it again. -/
theorem locks_deregister {s : State} {a : Action} (hs : Ordered s) (h4 : 4 ≤ s.main.order)
    (he : Enabled s a) (hl : a.locks = true) : ∃ c, a = .deregister c := by
  cases a with
  | addPeer t c => exact absurd he.1 (hs.not_addPeer (Nat.le_of_succ_le h4))
  | listPeers | sendMessage id m | disconnectPeer id | stop | closeAll =>
    rw [show s.main = _ from he] at h4
    exact absurd h4 (by decide)
  | check =>
    rw [Enabled, hs.joined (Nat.le_of_succ_le h4)] at he
    cases he
  | deregister c => exact ⟨c, rfl⟩
  | _ => cases hl

/-- No handler goes back to a place before its locked section. -/
theorem inTime_effect {s : State} {a : Action} (hs : Ordered s) (h3 : 3 ≤ s.main.order)
    (he : Enabled s a) (c : ConnId) (h : ((effect s a).conn c).handler.inTime = true) :
    (s.conn c).handler.inTime = true := by
  -- a step at connection `c'` that moves its handler from one such place
  have hmove : ∀ (w : World) (c' : ConnId) (pc : HandlerPc),
      (∀ c, (w.conn c).handler = (s.conn c).handler) → (s.conn c').handler.inTime = true →
      ((w.setHandler c' pc).conn c).handler.inTime = true → (s.conn c).handler.inTime = true := by
    intro w c' pc hw hin h
    rw [World.setHandler, World.setConn_conn] at h
    split at h
    · rename_i e
      exact e ▸ hin
    · rwa [hw] at h
  have hstop : ∀ (w : World) (c' : ConnId) (pc : HandlerPc),
      (∀ c, (w.conn c).handler = (s.conn c).handler) → pc.inTime = false →
      ((w.setHandler c' pc).conn c).handler.inTime = true → (s.conn c).handler.inTime = true := by
    intro w c' pc hw hpc h
    rw [World.setHandler, World.setConn_conn] at h
    split at h
    · change pc.inTime = true at h
      rw [hpc] at h
      cases h
    · rwa [hw] at h
  have hcreate : ∀ {t : Creator} {c : ConnId}, s.creating t = some c → False :=
    fun hc => hs.not_addPeer h3 hc
  cases a with
  | socket ip port fd | listPeers | sendMessage id m | disconnectPeer id | stop =>
    first
    | rw [show s.main = _ from he] at h3
    | rw [show s.main = _ from he.1] at h3
    exact absurd h3 (by decide)
  | dial c' ok => exact (hcreate (creating_main.mpr he.1)).elim
  | spawn t c' ok | failClose t c' | addPeer t c' | refuseClose t c' | refuseCancel t c' =>
    exact (hcreate he.1).elim
  | closeListener =>
    rw [show s.main = _ from he] at h3
    exact absurd h3 (by decide)
  | closeAll =>
    change ((s.doReply _).conn c).handler.inTime = true at h
    rwa [World.doReply_handler] at h
  | accept ip port fd =>
    cases (hs.joined h3).symm.trans he.1
  | recv c' gone =>
    exact hmove s.toWorld c' _ (fun _ => rfl) (by rw [show (s.conn c').handler = _ from he]; rfl) h
  | display c' =>
    exact hmove s.toWorld c' _ (fun _ => rfl) (by rw [show (s.conn c').handler = _ from he]; rfl) h
  | announce c' =>
    exact hmove s.toWorld c' _ (fun _ => rfl) (by rw [show (s.conn c').handler = _ from he]; rfl) h
  | deregister c' =>
    exact hstop _ c' _ (fun c => World.doReply_handler s.toWorld _ c) rfl h
  | loopClose c' => exact hstop _ c' _ (fun _ => rfl) rfl h
  | cleanupClose c' =>
    refine hstop (s.peerCleanup c') c' _ (fun _ => ?_) rfl h
    rw [World.peerCleanup]
    split <;> rfl
  | cancelled c' =>
    refine hstop s.toWorld c' _ (fun _ => rfl) ?_ h
    cases (s.conn c').handler <;> rfl
  | join | destroy | check | callAccept => exact h

/-- `chatapp_shutdown` does not go back. -/
theorem order_le_effect {s : State} {a : Action} (he : Enabled s a) :
    s.main.order ≤ (effect s a).main.order := by
  rcases order_effect he with e | rfl | rfl | rfl | rfl | rfl
  · exact e.ge
  · rw [show s.main = _ from he]
    exact Nat.zero_le _
  · rw [show s.main = _ from he]
    exact Nat.le_succ _
  · rw [show s.main = _ from he.1]
    exact Nat.le_succ _
  · rw [show s.main = _ from he]
    exact Nat.le_succ _
  · rw [show s.main = _ from he]
    exact Nat.le_succ _

/-- A handler that has not run its locked section can still run it. -/
theorem deregisters {u : State} {c : ConnId} (h : (u.conn c).handler.inTime = true) :
    ∃ as v, Run step Any u as v ∧ Action.deregister c ∈ as := by
  have hself : ∀ (w : World) (pc : HandlerPc), ((w.setHandler c pc).conn c).handler = pc := by
    intro w pc
    rw [World.setHandler, World.setConn_self]
  have hlocking : ∀ u : State, (u.conn c).handler = .locking →
      ∃ as v, Run step Any u as v ∧ Action.deregister c ∈ as := fun u h =>
    ⟨[.deregister c], _, .single trivial (step_eq_some.mpr ⟨h, rfl⟩), List.mem_singleton_self _⟩
  have hleaving : ∀ u : State, (u.conn c).handler = .leaving →
      ∃ as v, Run step Any u as v ∧ Action.deregister c ∈ as := by
    intro u h
    obtain ⟨as, v, hr, hm⟩ := hlocking (effect u (.announce c)) (hself _ _)
    exact ⟨_, v, hr.cons (a := Action.announce c) trivial (step_eq_some.mpr ⟨h, rfl⟩),
      List.mem_cons_of_mem _ hm⟩
  have hreceiving : ∀ u : State, (u.conn c).handler = .receiving →
      ∃ as v, Run step Any u as v ∧ Action.deregister c ∈ as := by
    intro u h
    obtain ⟨as, v, hr, hm⟩ := hleaving (effect u (.recv c true)) (hself _ _)
    exact ⟨_, v, hr.cons (a := Action.recv c true) trivial (step_eq_some.mpr ⟨h, rfl⟩),
      List.mem_cons_of_mem _ hm⟩
  cases hh : (u.conn c).handler with
  | receiving => exact hreceiving u hh
  | displaying =>
    obtain ⟨as, v, hr, hm⟩ := hreceiving (effect u (.display c)) (hself _ _)
    exact ⟨_, v, hr.cons (a := Action.display c) trivial (step_eq_some.mpr ⟨hh, rfl⟩),
      List.mem_cons_of_mem _ hm⟩
  | leaving => exact hleaving u hh
  | locking => exact hlocking u hh
  | absent | closing | popping | cancelled | ended =>
    rw [hh] at h
    cases h

/-- **Nothing touches the program's state after the last release of the mutex**, if and
only if by then every handler has run its locked section, or will never come to it.  The
slots are inactive and stay so in either case. -/
theorem shutdown_is_last {port : Int} {fd : Nat} {inherited : Int → Bool} {s : State}
    (hr : Reachable step Any (initial port fd inherited) s) (hm : s.main = .clearing) :
    (∀ as u, Run step Any (effect s .closeAll) as u →
      (∀ i, (u.app.peers i).active = false) ∧ ∀ a ∈ as, a.locks = false) ↔
    ∀ c, (s.conn c).handler.inTime = false := by
  have hs : Ordered (effect s .closeAll) := (Ordered.run hr).effect hm
  have hkeep : ∀ c, ((effect s .closeAll).conn c).handler = (s.conn c).handler :=
    World.doReply_handler s.toWorld _
  constructor
  · intro h c
    rw [Bool.eq_false_iff]
    intro hin
    obtain ⟨as, u, hrun, hmem⟩ := deregisters (u := effect s .closeAll) (by rwa [hkeep c])
    cases (h as u hrun).2 _ hmem
  · intro h as u hrun
    have hinv : (Ordered u ∧ 4 ≤ u.main.order ∧ ∀ c, (u.conn c).handler.inTime = false) ∧
        ∀ a ∈ as, a.locks = false := by
      induction hrun with
      | nil => exact ⟨⟨hs, le_rfl, fun c => by rw [hkeep c]; exact h c⟩, by simp⟩
      | snoc _ _ hn ih =>
        obtain ⟨⟨ht, h4, hpast⟩, has⟩ := ih
        obtain ⟨he, rfl⟩ := step_eq_some.mp hn
        refine ⟨⟨ht.effect he, h4.trans (order_le_effect he), fun c => ?_⟩, fun a ha => ?_⟩
        · rw [Bool.eq_false_iff]
          intro hin
          have := inTime_effect ht (Nat.le_of_succ_le h4) he c hin
          rw [hpast c] at this
          cases this
        · rcases List.mem_append.mp ha with ha | ha
          · exact has a ha
          · cases List.mem_singleton.mp ha
            rw [Bool.eq_false_iff]
            intro hl
            obtain ⟨c, rfl⟩ := locks_deregister ht h4 he hl
            have := hpast c
            rw [show (_ : HandlerPc) = .locking from he] at this
            cases this
    exact ⟨hinv.1.1.emptied hinv.1.2.1, hinv.2⟩

/-- The steps of `chatapp_shutdown` up to its second locked section, with a listener
that is at the top of its loop. -/
def stopAndJoin : List Action := [.stop, .check, .closeListener, .join]

/-- One peer, whose handler has ended when the program is shut down. -/
theorem shutdown_is_last_one :
    ∃ s, exec step (initial 4000 3 stdio) (acceptPeer 0 4 ++ [.addPeer .listener 0] ++
        remoteCloses 0 ++ [.deregister 0, .loopClose 0, .cleanupClose 0] ++ stopAndJoin) = some s ∧
      s.main = .clearing ∧ ∀ as u, Run step Any (effect s .closeAll) as u →
        (∀ i, (u.app.peers i).active = false) ∧ ∀ a ∈ as, a.locks = false := by
  have hr : Reachable step Any (initial 4000 3 stdio) _ :=
    ⟨acceptPeer 0 4 ++ [.addPeer .listener 0] ++ remoteCloses 0 ++
      [.deregister 0, .loopClose 0, .cleanupClose 0] ++ stopAndJoin, exec_run rfl⟩
  refine ⟨_, rfl, rfl, (shutdown_is_last hr rfl).mpr (fun c => ?_)⟩
  cases c with
  | zero => rfl
  | succ c => rfl

/-- **A handler takes the destroyed mutex.**  The remote has closed connection 0, and its
handler is about to take the lock when the program is shut down. -/
theorem locked_after_destroy :
    ∃ s t, Run step Any (initial 4000 3 stdio) (acceptPeer 0 4 ++ [.addPeer .listener 0] ++
        remoteCloses 0 ++ stopAndJoin ++ [.closeAll, .destroy]) s ∧
      s.main = .finished ∧ step s (.deregister 0) = some t ∧
      Action.locks (.deregister 0) = true :=
  ⟨_, _, exec_run rfl, rfl, rfl, rfl⟩

/-! ### Waiting for the listener -/

/-- No connection comes in: an `accept` that waits does not return. -/
def NoArrival : State → Action → Prop
  | _, .accept _ _ _ => False
  | _, _ => True

/-- The steps of `listen_thread`. -/
def Action.listens : Action → Bool
  | .check | .callAccept | .accept _ _ _ | .spawn .listener _ _ | .failClose .listener _
  | .addPeer .listener _ | .refuseClose .listener _ | .refuseCancel .listener _ => true
  | _ => false

/-- The main thread is in `pthread_join`, and without a further connection the listener
never takes a step again. -/
def Stuck (s : State) : Prop :=
  s.main = .joining ∧ s.listener ≠ .ended ∧
    ∀ as t, Run step NoArrival s as t → ∀ a, a.listens = true → NoArrival t a → ¬ Enabled t a

/-- The listener is on its way to the end: the socket is closed and it is not in `accept`. -/
structure Winding (s : State) : Prop where
  ordered : Ordered s
  order : 2 ≤ s.main.order
  outside : s.listener ≠ .accepting

/-- The steps the listener is from its end, by its place and by the stage of the
connection it serves. -/
def Stage.left : Stage → Nat
  | .spawning => 6
  | .adding => 5
  | .refused => 4
  | .cancelling => 3
  | .failing => 3
  | .dialing | .done => 0

def State.left (s : State) : Nat :=
  match s.listener with
  | .checking => 1
  | .calling => 2
  | .serving c => (s.conn c).stage.left
  | .accepting | .ended => 0

theorem Winding.effect {s : State} {a : Action} (hs : Winding s) (he : Enabled s a) :
    Winding (effect s a) := by
  refine ⟨hs.ordered.effect he, hs.order.trans (order_le_effect he), ?_⟩
  have hclosed := hs.ordered.closed hs.order
  have hleave : ∀ (t : Creator) (w : World),
      (State.leave { s with toWorld := w } t).listener ≠ .accepting := by
    intro t w
    cases t with
    | main => exact hs.outside
    | listener => intro e; cases e
  cases a with
  | socket ip port fd => cases fd <;> exact hs.outside
  | spawn t c ok => cases ok <;> exact hs.outside
  | failClose t c => exact hleave t _
  | addPeer t c =>
    show (ite _ _ _ : State).listener ≠ _
    split
    · exact hs.outside
    · exact hleave t _
  | refuseCancel t c => exact hleave t _
  | check =>
    show (if s.app.running = true then ListenerPc.calling else .ended) ≠ _
    split <;> simp
  | callAccept =>
    -- the number is no longer the listening socket's, so the call fails
    show (if s.fds s.app.listenerSocket = some .listener then _ else _) ≠ ListenerPc.accepting
    rw [if_neg hclosed]
    simp
  | accept ip port fd => exact absurd he.1 hs.outside
  | dial _ _ | refuseClose _ _ | listPeers | sendMessage _ _ | disconnectPeer _ | stop
  | closeListener | join | closeAll | destroy | recv _ _ | display _ | announce _
  | deregister _ | loopClose _ | cleanupClose _ | cancelled _ => exact hs.outside

/-- The listener can always go on, and each of its steps brings it nearer to its end. -/
theorem Winding.moves {s : State} (hs : Winding s) (hm : s.main = .joining)
    (hl : s.listener ≠ .ended) :
    ∃ a, a.listens = true ∧ NoArrival s a ∧ Enabled s a ∧ (Chat.effect s a).main = .joining ∧
      (Chat.effect s a).left < s.left := by
  have hleave : ∀ w : World, (State.leave { s with toWorld := w } .listener).left = 1 :=
    fun _ => rfl
  cases hpc : s.listener with
  | checking =>
    have hrun := hs.ordered.stopped (Nat.le_of_succ_le hs.order)
    refine ⟨.check, rfl, trivial, hpc, hm, ?_⟩
    rw [State.left, State.left, hpc, Chat.effect, hrun]
    exact Nat.zero_lt_one
  | calling =>
    refine ⟨.callAccept, rfl, trivial, hpc, hm, ?_⟩
    have hcall : (Chat.effect s .callAccept).listener = .checking :=
      if_neg (hs.ordered.closed hs.order)
    rw [State.left, State.left, hpc, hcall]
    exact Nat.one_lt_two
  | accepting => exact absurd hpc hs.outside
  | ended => exact absurd hpc hl
  | serving c =>
    obtain ⟨-, hdone, hdial⟩ := hs.ordered.making .listener c (creating_listener.mpr hpc)
    have hc := creating_listener.mpr hpc
    have hleft : s.left = (s.conn c).stage.left := by rw [State.left, hpc]
    -- the step leaves the listener at connection `c`, in the stage `k` has
    have hserve : ∀ (w : World) (k : Conn),
        ({ s with toWorld := w.setConn c k } : State).left = k.stage.left := by
      intro w k
      rw [State.left, hpc]
      show ((w.setConn c k).conn c).stage.left = _
      rw [World.setConn_self]
    cases hst : (s.conn c).stage with
    | dialing => exact absurd hst (hdial rfl)
    | done => exact absurd hst hdone
    | spawning =>
      refine ⟨.spawn .listener c true, rfl, trivial, ⟨hc, hst⟩, hm, ?_⟩
      rw [Chat.effect, hserve, hleft, hst]
      exact Nat.lt_succ_self 5
    | failing =>
      refine ⟨.failClose .listener c, rfl, trivial, ⟨hc, hst⟩, hm, ?_⟩
      rw [Chat.effect, hleave, hleft, hst]
      decide
    | adding =>
      have hw : ∀ w : World, (w.conn c).stage = .refused →
          ({ s with toWorld := w } : State).left = 4 := by
        intro w hw
        rw [State.left, hpc]
        show (w.conn c).stage.left = 4
        rw [hw]
        rfl
      refine ⟨.addPeer .listener c, rfl, trivial, ⟨hc, hst⟩, ?_, ?_⟩
      · rw [Chat.effect]
        split <;> exact hm
      · rw [Chat.effect, hleft, hst]
        split
        · rename_i href
          rw [hw _ href]
          decide
        · rw [hleave]
          decide
    | refused =>
      refine ⟨.refuseClose .listener c, rfl, trivial, ⟨hc, hst⟩, hm, ?_⟩
      rw [Chat.effect, World.setStage, hserve, hleft, hst]
      exact Nat.lt_succ_self 3
    | cancelling =>
      refine ⟨.refuseCancel .listener c, rfl, trivial, ⟨hc, hst⟩, hm, ?_⟩
      rw [Chat.effect, hleave, hleft, hst]
      decide

/-- **The main thread gets through its join** without a further connection. -/
theorem Winding.joins {s : State} (hs : Winding s) (hm : s.main = .joining) :
    ∃ as t, Run step NoArrival s as t ∧ t.main = .clearing := by
  induction hn : s.left using Nat.strong_induction_on generalizing s with
  | _ n ih =>
    by_cases hl : s.listener = .ended
    · exact ⟨[.join], _, .single trivial (step_eq_some.mpr ⟨⟨hm, hl⟩, rfl⟩), rfl⟩
    · obtain ⟨a, -, hno, he, hm', hlt⟩ := hs.moves hm hl
      obtain ⟨as, t, hrun, ht⟩ := ih _ (hn ▸ hlt) (hs.effect he) hm' rfl
      exact ⟨a :: as, t, hrun.cons hno (step_eq_some.mpr ⟨he, rfl⟩), ht⟩

theorem Winding.not_stuck {s : State} (hs : Winding s) : ¬ Stuck s := by
  intro h
  obtain ⟨a, hla, hno, he, -⟩ := hs.moves h.1 h.2.1
  exact h.2.2 [] s (.nil s) a hla hno he

/-- While the listener waits in `accept` and the main thread for the listener, the other
threads change neither. -/
theorem waiting_effect {s : State} {a : Action} (hm : s.main = .joining)
    (hl : s.listener = .accepting) (hno : NoArrival s a) (he : Enabled s a) :
    (effect s a).main = .joining ∧ (effect s a).listener = .accepting := by
  have hcreate : ∀ t c, s.creating t ≠ some c := by
    intro t c hc
    cases t with
    | main => cases hm.symm.trans (creating_main.mp hc)
    | listener => cases hl.symm.trans (creating_listener.mp hc)
  cases a with
  | socket ip port fd => cases hm.symm.trans he.1
  | dial c ok => cases hm.symm.trans he.1
  | spawn t c ok | failClose t c | addPeer t c | refuseClose t c | refuseCancel t c =>
    exact absurd he.1 (hcreate t c)
  | listPeers | sendMessage id m | disconnectPeer id | stop | closeListener | closeAll
  | destroy => cases hm.symm.trans he
  | join => cases hl.symm.trans he.2
  | check | callAccept => cases hl.symm.trans he
  | accept ip port fd => exact hno.elim
  | recv _ _ | display _ | announce _ | deregister _ | loopClose _ | cleanupClose _
  | cancelled _ => exact ⟨hm, hl⟩

/-- A listener inside `accept` on a socket that the main thread has closed. -/
theorem stuck_of_accepting {s : State} (hm : s.main = .joining) (hl : s.listener = .accepting) :
    Stuck s := by
  refine ⟨hm, by rw [hl]; simp, fun as t hr => ?_⟩
  have hinv : t.main = .joining ∧ t.listener = .accepting := by
    refine hr.invariant (P := fun t => t.main = .joining ∧ t.listener = .accepting) ⟨hm, hl⟩ ?_
    intro t a u ⟨hm, hl⟩ hno hn
    obtain ⟨he, rfl⟩ := step_eq_some.mp hn
    exact waiting_effect hm hl hno he
  intro a hla hno he
  have hserve : ∀ c, t.creating .listener ≠ some c := by
    intro c hc
    cases hinv.2.symm.trans (creating_listener.mp hc)
  cases a with
  | check | callAccept => cases hinv.2.symm.trans he
  | accept ip port fd => exact hno
  | spawn t' c ok | failClose t' c | addPeer t' c | refuseClose t' c | refuseCancel t' c =>
    cases t' with
    | main => cases hla
    | listener => exact hserve c he.1
  | _ => cases hla

/-- **The join returns.**  From no moment on does the main thread wait for the listener in
vain, if and only if the listener is not inside `accept` when the listening socket is
closed. -/
theorem listener_lets_go {port : Int} {fd : Nat} {inherited : Int → Bool} {s : State}
    (hr : Reachable step Any (initial port fd inherited) s) (hm : s.main = .stopping) :
    (∀ u, Reachable step Any (effect s .closeListener) u → ¬ Stuck u) ↔
      s.listener ≠ .accepting := by
  have hs : Ordered (effect s .closeListener) := (Ordered.run hr).effect hm
  constructor
  · intro h hl
    exact h _ (.refl _) (stuck_of_accepting rfl hl)
  · intro h u hu
    have hw : Winding u := by
      refine hu.invariant (P := Winding) ⟨hs, le_rfl, h⟩ (fun t a v ht _ hn => ?_)
      obtain ⟨he, rfl⟩ := step_eq_some.mp hn
      exact ht.effect he
    exact hw.not_stuck

/-- The program is shut down when the listener is at the top of its loop. -/
theorem listener_lets_go_one :
    ∃ s, exec step (initial 4000 3 stdio) [.stop] = some s ∧ s.main = .stopping ∧
      ∀ u, Reachable step Any (effect s .closeListener) u → ¬ Stuck u := by
  have hr : Reachable step Any (initial 4000 3 stdio) _ := ⟨[.stop], exec_run rfl⟩
  exact ⟨_, rfl, rfl, (listener_lets_go hr rfl).mpr (by decide)⟩

/-- **The main thread waits forever.**  The listener is inside `accept` when the socket is
closed, and nobody connects any more. -/
theorem stuck_in_join :
    ∃ s, Run step Any (initial 4000 3 stdio) [.check, .callAccept, .stop, .closeListener] s ∧
      Stuck s :=
  ⟨_, exec_run rfl, stuck_of_accepting rfl rfl⟩

end EmbeddedLinux.Chat
