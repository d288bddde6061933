import EmbeddedLinux.Chat.Recipients

/-!
# The order of the steps

What a step leaves alone (`Frame`), and what holds on every run whatever the threads do
to each other's descriptors (`Ordered`): `running`, the listening socket, the listener
and the slots are given up in the order of `chatapp_shutdown`, and a thread making a
connection is the only one that works on it.
-/

namespace EmbeddedLinux.Chat

open Transition CString

/-! ### What a step leaves alone -/

/-- The connection whose stage the action changes. -/
def Action.makes : Action → Option ConnId
  | .dial c _ | .spawn _ c _ | .failClose _ c | .addPeer _ c | .refuseClose _ c
  | .refuseCancel _ c => some c
  | _ => none

/-- `w'` comes from `w` by steps that make connection `k` or none. -/
structure Frame (k : Option ConnId) (w w' : World) : Prop where
  socket : w'.app.listenerSocket = w.app.listenerSocket
  running : w'.app.running = true → w.app.running = true
  listener : ∀ n, w'.fds n = some .listener → w.fds n = some .listener
  conns : w.conns ≤ w'.conns
  stage : ∀ c, c < w.conns → k ≠ some c → (w'.conn c).stage = (w.conn c).stage

namespace Frame

variable {k : Option ConnId} {w w' w'' : World} {c : ConnId}

theorem refl (w : World) : Frame k w w :=
  ⟨rfl, id, fun _ => id, le_rfl, fun _ _ _ => rfl⟩

theorem trans (h : Frame k w w') (h' : Frame k w' w'') : Frame k w w'' where
  socket := h'.socket.trans h.socket
  running := fun e => h.running (h'.running e)
  listener := fun n e => h.listener n (h'.listener n e)
  conns := h.conns.trans h'.conns
  stage := fun c hc hk => (h'.stage c (hc.trans_le h.conns) hk).trans (h.stage c hc hk)

theorem setConn (w : World) (r : Conn) (hk : k = some c ∨ r.stage = (w.conn c).stage) :
    Frame k w (w.setConn c r) := by
  refine ⟨rfl, id, fun _ => id, le_rfl, fun c' _ hc' => ?_⟩
  rw [World.setConn_conn]
  split
  · rename_i e
    subst e
    exact hk.resolve_left hc'
  · rfl

theorem setHandler (w : World) (c : ConnId) (h : HandlerPc) : Frame k w (w.setHandler c h) :=
  setConn w _ (Or.inr rfl)

theorem closeFd (w : World) (c : ConnId) (fd : Int) : Frame k w (w.closeFd c fd) := by
  refine ⟨rfl, id, fun n e => ?_, le_rfl, fun _ _ _ => rfl⟩
  rw [World.closeFd] at e
  simp only [Function.update_apply] at e
  split at e
  · cases e
  · exact e

theorem newConn (w : World) (fd : Int) (ip : List UInt8) (port : Int) (st : Stage) :
    Frame k w (w.newConn fd ip port st) := by
  refine ⟨rfl, id, fun n e => ?_, Nat.le_succ _, fun c hc _ => ?_⟩
  · rw [World.newConn] at e
    simp only [Function.update_apply] at e
    split at e
    · cases e
    · exact e
  · rw [World.newConn_of_ne w fd ip port st hc.ne]

theorem doCall (w : World) (x : Call) : Frame k w (w.doCall x) := by
  cases x with
  | close p => exact closeFd w _ _
  | pthreadCancel p => exact setConn w _ (Or.inr rfl)
  | send p m => exact refl w

theorem foldl_doCall (xs : List Call) (w : World) : Frame k w (xs.foldl World.doCall w) := by
  induction xs generalizing w with
  | nil => exact refl w
  | cons x xs ih => exact (doCall w x).trans (ih _)

end Frame

/-- No locked section changes the port's socket, and none sets `running`. -/
theorem reply_running (app : ChatApp) (op : Op) (h : (reply app op).app.running = true) :
    app.running = true := by
  cases op with
  | addPeer sockfd ip port tid =>
    obtain ⟨-, h', -⟩ | ⟨k, -, -, -, -, h'⟩ := chatappAddPeer_cases app sockfd ip port tid <;>
      rw [reply, h'] at h <;> exact h
  | listPeers => exact h
  | sendMessage id msg =>
    rw [reply, chatappSendMessage_app] at h
    exact h
  | disconnectPeer id =>
    obtain ⟨-, h', -⟩ | ⟨k, -, -, -, h', -⟩ := chatappDisconnectPeer_cases app id <;>
      rw [reply, h'] at h <;> exact h
  | deregister fd =>
    obtain ⟨h', -⟩ | ⟨k, -, -, h'⟩ := deregister_cases app fd <;>
      rw [reply, h'] at h <;> exact h
  | stop => cases h
  | closeAll => exact h

theorem Frame.doReply {k : Option ConnId} (w : World) (op : Op) :
    Frame k w (w.doReply (reply w.app op)) := by
  have happ : Frame k w { w with app := (reply w.app op).app } :=
    ⟨reply_listenerSocket w.app op, reply_running w.app op, fun _ => id, le_rfl,
      fun _ _ _ => rfl⟩
  exact happ.trans (foldl_doCall _ _)

theorem Frame.register (w : World) (c : ConnId) : Frame (some c) w (w.register c) := by
  have h := Frame.doReply (k := some c) w
    (.addPeer (w.conn c).sockfd (w.conn c).ip (w.conn c).port c)
  rw [World.register]
  split <;> exact h.trans (Frame.setConn _ _ (Or.inl rfl))

/-- **What every step leaves alone.** -/
theorem frame_effect (s : State) (a : Action) (k : Option ConnId) (hk : a.makes = k) :
    Frame k s.toWorld (effect s a).toWorld := by
  subst hk
  cases a with
  | socket ip port fd =>
    cases fd with
    | none => exact .refl _
    | some fd => exact .newConn _ _ _ _ _
  | dial c ok => exact .setConn _ _ (Or.inl rfl)
  | spawn t c ok => cases ok <;> exact .setConn _ _ (Or.inl rfl)
  | failClose t c =>
    show Frame _ _ (State.leave _ t).toWorld
    rw [State.leave_toWorld]
    exact (Frame.closeFd _ _ _).trans (.setConn _ _ (Or.inl rfl))
  | addPeer t c =>
    show Frame _ _ (ite _ _ _ : State).toWorld
    split
    · exact .register _ _
    · rw [State.leave_toWorld]
      exact .register _ _
  | refuseClose t c => exact (Frame.closeFd _ _ _).trans (.setConn _ _ (Or.inl rfl))
  | refuseCancel t c =>
    show Frame _ _ (State.leave _ t).toWorld
    rw [State.leave_toWorld]
    exact (Frame.setConn _ _ (Or.inl rfl)).trans (.setConn _ _ (Or.inl rfl))
  | listPeers => exact .doReply _ .listPeers
  | sendMessage id msg => exact .doReply _ (.sendMessage id msg)
  | disconnectPeer id => exact .doReply _ (.disconnectPeer id)
  | stop => exact .doReply _ .stop
  | closeListener =>
    refine ⟨rfl, id, fun n e => ?_, le_rfl, fun _ _ _ => rfl⟩
    change Function.update s.fds _ none n = _ at e
    rw [Function.update_apply] at e
    split at e
    · cases e
    · exact e
  | closeAll => exact .doReply _ .closeAll
  | accept ip port fd =>
    cases fd with
    | none => exact .refl _
    | some fd => exact .newConn _ _ _ _ _
  | recv c gone => exact .setHandler _ _ _
  | display c => exact .setHandler _ _ _
  | announce c => exact .setHandler _ _ _
  | deregister c => exact (Frame.doReply _ (.deregister (s.sockfd c))).trans (.setHandler _ _ _)
  | loopClose c => exact (Frame.closeFd _ _ _).trans (.setHandler _ _ _)
  | cleanupClose c =>
    refine Frame.trans ?_ (.setHandler _ _ _)
    rw [World.peerCleanup]
    split
    · exact .closeFd _ _ _
    · exact .refl _
  | cancelled c => exact .setHandler _ _ _
  | join | destroy | check | callAccept => exact .refl _

/-! ### The order of the steps -/

/-- How far `chatapp_shutdown` has got. -/
def MainPc.order : MainPc → Nat
  | .ready | .connecting _ => 0
  | .stopping => 1
  | .joining => 2
  | .clearing => 3
  | .destroying => 4
  | .finished => 5

/-- What the steps of `chatapp_shutdown` have done, and who works on which connection. -/
structure Ordered (s : State) : Prop where
  stopped : 1 ≤ s.main.order → s.app.running = false
  closed : 2 ≤ s.main.order → s.fds s.app.listenerSocket ≠ some .listener
  joined : 3 ≤ s.main.order → s.listener = .ended
  emptied : 4 ≤ s.main.order → ∀ i, (s.app.peers i).active = false
  making : ∀ t c, s.creating t = some c → c < s.conns ∧ (s.conn c).stage ≠ .done ∧
    (t = .listener → (s.conn c).stage ≠ .dialing)
  apart : ∀ c, s.creating .main = some c → s.creating .listener ≠ some c

theorem creating_main {s : State} {c : ConnId} :
    s.creating .main = some c ↔ s.main = .connecting c := by
  rw [State.creating]
  cases s.main <;> simp

theorem creating_listener {s : State} {c : ConnId} :
    s.creating .listener = some c ↔ s.listener = .serving c := by
  rw [State.creating]
  cases s.listener <;> simp

/-- Only the five steps of `chatapp_shutdown` move it on. -/
theorem order_effect {s : State} {a : Action} (he : Enabled s a) :
    (effect s a).main.order = s.main.order ∨ a = .stop ∨ a = .closeListener ∨ a = .join ∨
      a = .closeAll ∨ a = .destroy := by
  have hleave : ∀ (t : Creator) (c : ConnId) (s' : State), s.creating t = some c →
      s'.main = s.main → (s'.leave t).main.order = s.main.order := by
    intro t c s' hc hs'
    cases t with
    | main => rw [creating_main.mp hc]; rfl
    | listener => rw [State.leave, hs']
  cases a with
  | socket ip port fd =>
    left
    rw [he.1]
    cases fd with
    | none => rw [effect, he.1]
    | some fd => rfl
  | spawn t c ok => cases ok <;> exact Or.inl rfl
  | failClose t c => exact Or.inl (hleave t c _ he.1 rfl)
  | addPeer t c =>
    left
    show (ite _ _ _ : State).main.order = _
    split
    · rfl
    · exact hleave t c _ he.1 rfl
  | refuseCancel t c => exact Or.inl (hleave t c _ he.1 rfl)
  | accept ip port fd => cases fd <;> exact Or.inl rfl
  | stop | closeListener | join | closeAll | destroy => simp
  | dial _ _ | refuseClose _ _ | listPeers | sendMessage _ _ | disconnectPeer _ | check
  | callAccept | recv _ _ | display _ | announce _ | deregister _ | loopClose _
  | cleanupClose _ | cancelled _ => exact Or.inl rfl

theorem World.doReply_app (w : World) (r : Reply) : (w.doReply r).app = r.app := by
  have h : ∀ (xs : List Call) (w : World), (xs.foldl doCall w).app = w.app := by
    intro xs
    induction xs with
    | nil => intro w; rfl
    | cons x xs ih =>
      intro w
      rw [List.foldl_cons, ih]
      cases x <;> rfl
  exact h _ _

theorem World.doReply_handler (w : World) (r : Reply) (c : ConnId) :
    ((w.doReply r).conn c).handler = (w.conn c).handler := by
  have h : ∀ (xs : List Call) (w : World),
      ((xs.foldl doCall w).conn c).handler = (w.conn c).handler := by
    intro xs
    induction xs with
    | nil => intro w; rfl
    | cons x xs ih =>
      intro w
      rw [List.foldl_cons, ih]
      cases x with
      | close p => rfl
      | send p m => rfl
      | pthreadCancel p =>
        rw [doCall, pthreadCancel, setConn_conn]
        split
        · rename_i e
          rw [e]
        · rfl
  exact h _ _

theorem World.register_app (w : World) (c : ConnId) : (w.register c).app =
    (reply w.app (.addPeer (w.conn c).sockfd (w.conn c).ip (w.conn c).port c)).app := by
  rw [World.register]
  split <;> exact World.doReply_app _ _

/-- The table after a step is as it was, or as one locked section leaves it. -/
theorem effect_app (s : State) (a : Action) : (effect s a).app = s.app ∨
    ∃ op, (effect s a).app = (reply s.app op).app ∧
      ∀ fd ip port tid, op = .addPeer fd ip port tid → ∃ t, a = .addPeer t tid := by
  cases a with
  | socket ip port fd => cases fd <;> exact Or.inl rfl
  | spawn t c ok => cases ok <;> exact Or.inl rfl
  | failClose t c =>
    left
    show (State.leave _ t).toWorld.app = _
    rw [State.leave_toWorld]
    rfl
  | addPeer t c =>
    right
    refine ⟨.addPeer (s.conn c).sockfd (s.conn c).ip (s.conn c).port c, ?_, ?_⟩
    · show (ite _ _ _ : State).app = _
      split
      · exact World.register_app _ _
      · rw [State.leave_toWorld]
        exact World.register_app _ _
    · intro fd ip port tid e
      cases e
      exact ⟨t, rfl⟩
  | refuseCancel t c =>
    left
    show (State.leave _ t).toWorld.app = _
    rw [State.leave_toWorld]
    rfl
  | listPeers =>
    exact Or.inr ⟨.listPeers, World.doReply_app _ _, by intro _ _ _ _ e; cases e⟩
  | sendMessage id m =>
    exact Or.inr ⟨.sendMessage id m, World.doReply_app _ _, by intro _ _ _ _ e; cases e⟩
  | disconnectPeer id =>
    exact Or.inr ⟨.disconnectPeer id, World.doReply_app _ _, by intro _ _ _ _ e; cases e⟩
  | stop => exact Or.inr ⟨.stop, World.doReply_app _ _, by intro _ _ _ _ e; cases e⟩
  | closeAll => exact Or.inr ⟨.closeAll, World.doReply_app _ _, by intro _ _ _ _ e; cases e⟩
  | accept ip port fd => cases fd <;> exact Or.inl rfl
  | deregister c =>
    refine Or.inr ⟨.deregister (s.sockfd c), ?_, by intro _ _ _ _ e; cases e⟩
    exact World.doReply_app s.toWorld _
  | cleanupClose c =>
    left
    show (s.peerCleanup c).app = _
    rw [World.peerCleanup]
    split <;> rfl
  | dial _ _ | refuseClose _ _ | closeListener | join | destroy | check | callAccept | recv _ _
  | display _ | announce _ | loopClose _ | cancelled _ => exact Or.inl rfl

/-- Only a registration makes a slot active. -/
theorem active_effect {s : State} {a : Action} {i : Fin maxPeers}
    (h : ((effect s a).app.peers i).active = true) :
    (s.app.peers i).active = true ∨ ∃ t c, a = .addPeer t c := by
  rcases effect_app s a with e | ⟨op, e, hadd⟩
  · rw [e] at h
    exact Or.inl h
  · rw [e] at h
    rcases reply_slot s.app op i h with e' | ⟨fd, ip, port, tid, hop, -⟩
    · rw [e'] at h
      exact Or.inl h
    · obtain ⟨t, ha⟩ := hadd fd ip port tid hop
      exact Or.inr ⟨t, tid, ha⟩

namespace Ordered

variable {s : State} {a : Action}

/-- The thread that makes a connection, after a step. -/
theorem creating_effect (he : Enabled s a) {t : Creator} {c : ConnId}
    (h : (effect s a).creating t = some c) :
    s.creating t = some c ∨
      c = s.conns ∧ ((∃ ip port fd, a = .socket ip port (some fd) ∧ t = .main) ∨
        ∃ ip port fd, a = .accept ip port (some fd) ∧ t = .listener) := by
  have hleave : ∀ (t' : Creator) (w : World),
      (State.leave { s with toWorld := w } t').creating t = some c → s.creating t = some c := by
    intro t' w
    cases t' <;> cases t <;> simp [State.leave, State.creating]
  cases a with
  | socket ip port fd =>
    cases fd with
    | none => exact Or.inl h
    | some fd =>
      cases t with
      | main =>
        right
        rw [creating_main] at h
        cases h
        exact ⟨rfl, Or.inl ⟨ip, port, fd, rfl, rfl⟩⟩
      | listener => exact Or.inl h
  | spawn t' c' ok => cases ok <;> exact Or.inl h
  | failClose t' c' => exact Or.inl (hleave _ _ h)
  | addPeer t' c' =>
    left
    change (ite _ _ _ : State).creating t = _ at h
    split at h
    · exact h
    · exact hleave _ _ h
  | refuseCancel t' c' => exact Or.inl (hleave _ _ h)
  | stop | closeListener | join | closeAll | destroy =>
    cases t with
    | main =>
      rw [creating_main] at h
      cases h
    | listener => exact Or.inl h
  | check =>
    cases t with
    | main => exact Or.inl h
    | listener =>
      rw [creating_listener, effect] at h
      split at h <;> cases h
  | callAccept =>
    cases t with
    | main => exact Or.inl h
    | listener =>
      rw [creating_listener, effect] at h
      split at h <;> cases h
  | accept ip port fd =>
    cases fd with
    | none =>
      cases t with
      | main => exact Or.inl h
      | listener =>
        rw [creating_listener] at h
        cases h
    | some fd =>
      cases t with
      | main => exact Or.inl h
      | listener =>
        right
        rw [creating_listener] at h
        cases h
        exact ⟨rfl, Or.inr ⟨ip, port, fd, rfl, rfl⟩⟩
  | dial _ _ | refuseClose _ _ | listPeers | sendMessage _ _ | disconnectPeer _ | recv _ _
  | display _ | announce _ | deregister _ | loopClose _ | cleanupClose _ | cancelled _ =>
    exact Or.inl h

theorem leave_creating (s : State) (t : Creator) : (s.leave t).creating t = none := by
  cases t <;> rfl

/-- One thread works on a connection. -/
theorem creator_unique (hs : Ordered s) {t t' : Creator} {c : ConnId}
    (h : s.creating t = some c) (h' : s.creating t' = some c) : t = t' := by
  cases t <;> cases t'
  · rfl
  · exact absurd h' (hs.apart c h)
  · exact absurd h (hs.apart c h')
  · rfl

/-- The stage of a connection that is being made, after the step that works on it. -/
theorem making_makes (hs : Ordered s) (he : Enabled s a) {t : Creator} {c : ConnId}
    (hk : a.makes = some c) (h0 : s.creating t = some c)
    (h : (effect s a).creating t = some c) :
    ((effect s a).conn c).stage ≠ .done ∧ ((effect s a).conn c).stage ≠ .dialing := by
  cases a with
  | dial c' ok =>
    cases hk
    show ((s.setStage c _).conn c).stage ≠ _ ∧ ((s.setStage c _).conn c).stage ≠ _
    rw [World.setStage, World.setConn_self]
    cases ok <;> simp
  | spawn t' c' ok =>
    cases hk
    cases ok with
    | false =>
      show ((s.setStage c _).conn c).stage ≠ _ ∧ ((s.setStage c _).conn c).stage ≠ _
      rw [World.setStage, World.setConn_self]
      simp
    | true =>
      show ((s.setConn c _).conn c).stage ≠ _ ∧ ((s.setConn c _).conn c).stage ≠ _
      rw [World.setConn_self]
      simp
  | refuseClose t' c' =>
    cases hk
    show ((World.setStage _ c _).conn c).stage ≠ _ ∧ ((World.setStage _ c _).conn c).stage ≠ _
    rw [World.setStage, World.setConn_self]
    simp
  | addPeer t' c' =>
    cases hk
    cases hs.creator_unique h0 he.1
    rw [effect] at h ⊢
    split at h
    · rename_i hst
      rw [if_pos hst, hst]
      simp
    · rw [leave_creating] at h
      cases h
  | failClose t' c' | refuseCancel t' c' =>
    cases hk
    cases hs.creator_unique h0 he.1
    rw [effect, leave_creating] at h
    cases h
  | _ => cases hk

theorem making_effect (hs : Ordered s) (he : Enabled s a) {t : Creator} {c : ConnId}
    (h : (effect s a).creating t = some c) :
    c < (effect s a).conns ∧ ((effect s a).conn c).stage ≠ .done ∧
      (t = .listener → ((effect s a).conn c).stage ≠ .dialing) := by
  have hf := frame_effect s a a.makes rfl
  rcases creating_effect he h with h0 | ⟨rfl, hnew⟩
  · obtain ⟨hc, hst⟩ := hs.making t c h0
    refine ⟨hc.trans_le hf.conns, ?_⟩
    by_cases hk : a.makes = some c
    · obtain ⟨h1, h2⟩ := hs.making_makes he hk h0 h
      exact ⟨h1, fun _ => h2⟩
    · rw [hf.stage c hc hk]
      exact hst
  · rcases hnew with ⟨ip, port, fd, rfl, rfl⟩ | ⟨ip, port, fd, rfl, rfl⟩
    · refine ⟨Nat.lt_succ_self _, ?_⟩
      show ((s.newConn fd ip port .dialing).conn s.conns).stage ≠ _ ∧ _
      rw [World.newConn_self]
      simp
    · refine ⟨Nat.lt_succ_self _, ?_⟩
      show ((s.newConn fd ip port .spawning).conn s.conns).stage ≠ _ ∧ (_ →
        ((s.newConn fd ip port .spawning).conn s.conns).stage ≠ _)
      rw [World.newConn_self]
      simp

theorem initial (port : Int) (fd : Nat) (inherited : Int → Bool) :
    Ordered (Chat.initial port fd inherited) := by
  refine ⟨?_, ?_, ?_, ?_, ?_, ?_⟩
  · intro h
    cases h
  · intro h
    cases h
  · intro h
    cases h
  · intro h
    cases h
  · intro t c h
    cases t <;> cases h
  · intro c h
    cases h

theorem listener_ended (he : Enabled s a) (hl : s.listener = .ended) :
    (effect s a).listener = .ended := by
  have hleave : ∀ (t : Creator) (c : ConnId) (s' : State), s.creating t = some c →
      s'.listener = s.listener → (s'.leave t).listener = .ended := by
    intro t c s' hc hs'
    cases t with
    | main => rw [State.leave, hs', hl]
    | listener =>
      rw [creating_listener, hl] at hc
      cases hc
  cases a with
  | socket ip port fd => cases fd <;> exact hl
  | spawn t c ok => cases ok <;> exact hl
  | failClose t c => exact hleave t c _ he.1 rfl
  | addPeer t c =>
    show (ite _ _ _ : State).listener = _
    split
    · exact hl
    · exact hleave t c _ he.1 rfl
  | refuseCancel t c => exact hleave t c _ he.1 rfl
  | check | callAccept =>
    rw [Enabled, hl] at he
    cases he
  | accept ip port fd =>
    rw [Enabled, hl] at he
    cases he.1
  | dial _ _ | refuseClose _ _ | listPeers | sendMessage _ _ | disconnectPeer _ | stop
  | closeListener | join | closeAll | destroy | recv _ _ | display _ | announce _
  | deregister _ | loopClose _ | cleanupClose _ | cancelled _ => exact hl

/-- After the join nobody registers a peer. -/
theorem not_addPeer (hs : Ordered s) (h3 : 3 ≤ s.main.order) {t : Creator} {c : ConnId} :
    s.creating t ≠ some c := by
  intro h
  cases t with
  | main =>
    rw [creating_main.mp h] at h3
    cases h3
  | listener =>
    rw [creating_listener, hs.joined h3] at h
    cases h

/-- **Every step keeps the order.** -/
theorem effect (hs : Ordered s) (he : Enabled s a) : Ordered (effect s a) := by
  have hf := frame_effect s a a.makes rfl
  have hord := order_effect he
  refine ⟨fun h1 => ?_, fun h2 => ?_, fun h3 => ?_, fun h4 i => ?_, ?_, ?_⟩
  · -- `running` is cleared by the step that leaves 0, and stays clear
    by_cases hstop : a = .stop
    · subst hstop
      rw [Chat.effect, World.doReply_app]
      rfl
    · rw [Bool.eq_false_iff]
      intro hrun
      have hpos : ¬ 1 ≤ s.main.order := by
        intro h
        have := hf.running hrun
        rw [hs.stopped h] at this
        cases this
      rcases hord with e | rfl | rfl | rfl | rfl | rfl
      · exact hpos (e ▸ h1)
      · exact hstop rfl
      · exact hpos (by rw [he]; decide)
      · exact hpos (by rw [he.1]; decide)
      · exact hpos (by rw [he]; decide)
      · exact hpos (by rw [he]; decide)
  · intro hfd
    rw [hf.socket] at hfd
    have hlow : ¬ 2 ≤ s.main.order := fun h => hs.closed h (hf.listener _ hfd)
    rcases hord with e | rfl | rfl | rfl | rfl | rfl
    · exact hlow (e ▸ h2)
    · exact absurd h2 (by rw [show (Chat.effect s .stop).main = .stopping from rfl]; decide)
    · change Function.update s.fds s.app.listenerSocket none _ = _ at hfd
      rw [Function.update_self] at hfd
      cases hfd
    · exact hlow (by rw [he.1]; decide)
    · exact hlow (by rw [he]; decide)
    · exact hlow (by rw [he]; decide)
  · rcases hord with e | rfl | rfl | rfl | rfl | rfl
    · exact listener_ended he (hs.joined (e ▸ h3))
    · exact absurd h3 (by rw [show (Chat.effect s .stop).main = .stopping from rfl]; decide)
    · exact absurd h3 (by rw [show (Chat.effect s .closeListener).main = .joining from rfl]; decide)
    · exact he.2
    · exact hs.joined (by rw [he]; decide)
    · exact hs.joined (by rw [he]; decide)
  · by_cases hall : a = .closeAll
    · subst hall
      rw [Chat.effect, World.doReply_app]
      exact closeAll_active _ _
    · rw [Bool.eq_false_iff]
      intro hact
      have h4' : 4 ≤ s.main.order := by
        rcases hord with e | rfl | rfl | rfl | rfl | rfl
        · exact e ▸ h4
        · exact absurd h4 (by rw [show (Chat.effect s .stop).main = .stopping from rfl]; decide)
        · exact absurd h4
            (by rw [show (Chat.effect s .closeListener).main = .joining from rfl]; decide)
        · exact absurd h4 (by rw [show (Chat.effect s .join).main = .clearing from rfl]; decide)
        · exact absurd rfl hall
        · rw [he]
          decide
      rcases active_effect hact with h | ⟨t, c, rfl⟩
      · rw [hs.emptied h4' i] at h
        cases h
      · exact hs.not_addPeer (Nat.le_of_succ_le h4') he.1
  · intro t c h
    exact hs.making_effect he h
  · intro c h h'
    rcases creating_effect he h with h0 | ⟨rfl, hnew⟩
    · rcases creating_effect he h' with h0' | ⟨rfl, -⟩
      · exact hs.apart c h0 h0'
      · exact (hs.making _ _ h0).1.ne rfl
    · rcases creating_effect he h' with h0' | ⟨-, hnew'⟩
      · exact (hs.making _ _ h0').1.ne rfl
      · rcases hnew with ⟨_, _, _, rfl, -⟩ | ⟨_, _, _, -, e⟩
        · rcases hnew' with ⟨_, _, _, -, e⟩ | ⟨_, _, _, e, -⟩ <;> cases e
        · cases e

/-- **The order holds on every run.** -/
theorem run {port : Int} {fd : Nat} {inherited : Int → Bool} {s : State}
    (hr : Reachable step Any (Chat.initial port fd inherited) s) : Ordered s := by
  refine hr.invariant (initial port fd inherited) (fun t a u ht _ hn => ?_)
  obtain ⟨he, rfl⟩ := step_eq_some.mp hn
  exact ht.effect he

end Ordered

end EmbeddedLinux.Chat
