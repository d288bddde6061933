import EmbeddedLinux.Chat.Order

/-!
# Handler threads that nobody takes back

`listen_thread` and `chatapp_connect_peer` create a handler thread for every connection.
The one `pthread_join` of the source is for the listener, and `pthread_detach` is not
called.  So every handler that was ever created is kept by the system, also after it
has ended: `handlers_pile_up` has runs with any number of them, at the end of which no
peer is connected and no handler is running.
-/

namespace EmbeddedLinux.Chat

open Transition CString

/-- The threads that are created. -/
inductive Worker
  | listener
  | handler (c : ConnId)
  deriving DecidableEq

/-- The handler a step creates with `pthread_create`. -/
def Action.created : Action → Option Worker
  | .spawn _ c true => some (.handler c)
  | _ => none

/-- The thread a step takes back with `pthread_join` or `pthread_detach`. -/
def Action.reaped : Action → Option Worker
  | .join => some .listener
  | _ => none

/-- The handlers created in the steps `as` that were neither joined nor detached. -/
def unreaped (as : List Action) : List Worker :=
  (as.filterMap Action.created).filter (fun t => t ∉ as.filterMap Action.reaped)

/-- What is not the listener is never taken back. -/
theorem unreaped_eq (as : List Action) : unreaped as = as.filterMap Action.created := by
  rw [unreaped, List.filter_eq_self]
  intro t ht
  obtain ⟨a, -, hc⟩ := List.mem_filterMap.mp ht
  rw [decide_eq_true_eq]
  intro hr
  obtain ⟨b, -, hb⟩ := List.mem_filterMap.mp hr
  have hl : t = .listener := by
    cases b <;> simp [Action.reaped] at hb
    exact hb.symm
  subst hl
  cases a with
  | spawn t c ok => cases ok <;> simp [Action.created] at hc
  | _ => simp [Action.created] at hc

theorem unreaped_append (as bs : List Action) :
    unreaped (as ++ bs) = unreaped as ++ unreaped bs := by
  rw [unreaped_eq, unreaped_eq, unreaped_eq, List.filterMap_append]

/-! ### One connection comes and goes -/

/-- Nothing is going on: no peer, no handler running, and the number `k` is free. -/
structure Idle (k : Int) (s : State) : Prop where
  main : s.main = .ready
  listener : s.listener = .checking
  running : s.app.running = true
  socket : s.fds s.app.listenerSocket = some .listener
  free : s.fds k = none
  slots : ∀ i, (s.app.peers i).active = false
  ids : 1 ≤ s.app.nextPeerId
  handlers : ∀ c, (s.conn c).handler = .absent ∨ (s.conn c).handler = .ended

theorem idle_initial (port : Int) {fd : Nat} {inherited : Int → Bool} {k : Int} (hk : k ≠ fd)
    (hfree : inherited k = false) : Idle k (initial port fd inherited) := by
  refine ⟨rfl, rfl, rfl, ?_, ?_, fun _ => rfl, le_rfl, fun _ => Or.inl rfl⟩
  · show (if (fd : Int) = fd then _ else _) = _
    rw [if_pos rfl]
  · show (if k = fd then _ else if inherited k = true then _ else _) = _
    rw [if_neg hk, hfree]
    rfl

/-- Connection `c` has been ended by the program, and its handler is told to stop. -/
structure Dropped (k : Int) (c : ConnId) (s : State) : Prop where
  main : s.main = .ready
  listener : s.listener = .checking
  running : s.app.running = true
  socket : s.fds s.app.listenerSocket = some .listener
  other : k ≠ s.app.listenerSocket
  slots : ∀ i, (s.app.peers i).active = false
  ids : 1 ≤ s.app.nextPeerId
  number : s.sockfd c = k
  handler : (s.conn c).handler = .receiving
  cancel : (s.conn c).cancel = true
  handlers : ∀ c', c' ≠ c → (s.conn c').handler = .absent ∨ (s.conn c').handler = .ended

/-- The handler acts on the cancellation, and the program is idle again. -/
theorem Dropped.ends {k : Int} {c : ConnId} {s : State} (hk : 0 ≤ k) (hs : Dropped k c s) :
    ∃ t, Run step Any s [.cancelled c, .cleanupClose c] t ∧ Idle k t := by
  have h1 : step s (.cancelled c) = some (effect s (.cancelled c)) :=
    step_eq_some.mpr ⟨⟨hs.cancel, by rw [hs.handler]; rfl⟩, rfl⟩
  have hc1 : (effect s (.cancelled c)).conn c = { s.conn c with handler := .cancelled } := by
    show (s.setHandler c _).conn c = _
    rw [World.setHandler, World.setConn_self, hs.handler]
    rfl
  have h2 : step (effect s (.cancelled c)) (.cleanupClose c) =
      some (effect (effect s (.cancelled c)) (.cleanupClose c)) :=
    step_eq_some.mpr ⟨Or.inr (by rw [hc1]), rfl⟩
  have hsock : (effect s (.cancelled c)).sockfd c = k := by
    rw [World.sockfd, hc1]
    exact hs.number
  have hw : (effect (effect s (.cancelled c)) (.cleanupClose c)).toWorld =
      ((effect s (.cancelled c)).closeFd c k).setHandler c .ended := by
    show ((effect s (.cancelled c)).peerCleanup c).setHandler c .ended = _
    rw [World.peerCleanup, hsock, if_pos hk]
  refine ⟨_, (Run.single trivial h1).append (.single trivial h2), ?_⟩
  refine ⟨hs.main, hs.listener, ?_, ?_, ?_, ?_, ?_, fun c' => ?_⟩
  · rw [hw]
    exact hs.running
  · rw [hw]
    exact (Function.update_of_ne (Ne.symm hs.other) _ _).trans hs.socket
  · rw [hw]
    exact Function.update_self _ _ _
  · rw [hw]
    exact hs.slots
  · rw [hw]
    exact hs.ids
  · rw [hw, World.setHandler, World.setConn_conn]
    split
    · exact Or.inr rfl
    · rename_i hne
      have hkeep : (effect s (.cancelled c)).conn c' = s.conn c' := Function.update_of_ne hne _ _
      change ((effect s (.cancelled c)).conn c').handler = _ ∨
        ((effect s (.cancelled c)).conn c').handler = _
      rw [hkeep]
      exact hs.handlers c' hne

/-- The listener is about to register connection `c`, whose handler is at `recv`. -/
structure Taken (k : Int) (c : ConnId) (s : State) : Prop where
  main : s.main = .ready
  listener : s.listener = .serving c
  running : s.app.running = true
  socket : s.fds s.app.listenerSocket = some .listener
  other : k ≠ s.app.listenerSocket
  slots : ∀ i, (s.app.peers i).active = false
  ids : 1 ≤ s.app.nextPeerId
  number : s.sockfd c = k
  stage : (s.conn c).stage = .adding
  handler : (s.conn c).handler = .receiving
  handlers : ∀ c', c' ≠ c → (s.conn c').handler = .absent ∨ (s.conn c').handler = .ended

/-- A peer connects. -/
theorem Idle.takes {k : Int} {s : State} (hk : 0 ≤ k) (hs : Idle k s) :
    ∃ t, Run step Any s [.check, .callAccept, .accept [] 0 (some k),
      .spawn .listener s.conns true] t ∧ Taken k s.conns t := by
  have h1 : effect s .check = { s with listener := .calling } := by
    rw [effect, hs.running]
    rfl
  have h2 : effect { s with listener := .calling } .callAccept =
      { s with listener := .accepting } := by
    show ({ s with listener := if _ then _ else _ } : State) = _
    rw [if_pos hs.socket]
  have hother : k ≠ s.app.listenerSocket := by
    rintro rfl
    have := hs.socket
    rw [hs.free] at this
    cases this
  let w := s.newConn k [] 0 .spawning
  let t : State := { s with toWorld := w, listener := .serving s.conns }
  have hw : w.conn s.conns = ⟨k, [], 0, .spawning, .absent, false, none⟩ :=
    World.newConn_self _ _ _ _ _
  have ht : step t (.spawn .listener s.conns true) =
      some (effect t (.spawn .listener s.conns true)) :=
    step_eq_some.mpr ⟨⟨rfl, by show (w.conn s.conns).stage = _; rw [hw]⟩, rfl⟩
  have hc : (effect t (.spawn .listener s.conns true)).conn s.conns =
      ⟨k, [], 0, .adding, .receiving, false, none⟩ := by
    show (w.setConn s.conns { w.conn s.conns with stage := .adding, handler := .receiving }).conn
      s.conns = _
    rw [World.setConn_self, hw]
  refine ⟨effect t (.spawn .listener s.conns true), ?_, hs.main, rfl, hs.running, ?_, hother,
    hs.slots, hs.ids, ?_, ?_, ?_, fun c hc' => ?_⟩
  · refine Run.cons trivial (step_eq_some.mpr ⟨hs.listener, h1⟩) ?_
    refine Run.cons trivial (step_eq_some.mpr ⟨rfl, h2⟩) ?_
    exact Run.cons (t := t) trivial (step_eq_some.mpr ⟨⟨rfl, hk, hs.free⟩, rfl⟩)
      (.single trivial ht)
  · exact (Function.update_of_ne (Ne.symm hother) _ _).trans hs.socket
  · rw [World.sockfd, hc]
  · rw [hc]
  · rw [hc]
  · have : (effect t (.spawn .listener s.conns true)).conn c = s.conn c := by
      show (w.setConn s.conns _).conn c = _
      rw [World.setConn_conn, if_neg hc']
      exact World.newConn_of_ne _ _ _ _ _ hc'
    rw [this]
    exact hs.handlers c

/-- A peer that is refused is dropped. -/
theorem Taken.refused {k : Int} {c : ConnId} {s : State} (hs : Taken k c s)
    (hret : (chatappAddPeer s.app (s.conn c).sockfd (s.conn c).ip (s.conn c).port c).ret = -1)
    (happ : (chatappAddPeer s.app (s.conn c).sockfd (s.conn c).ip (s.conn c).port c).app = s.app) :
    ∃ t, Run step Any s [.addPeer .listener c, .refuseClose .listener c,
      .refuseCancel .listener c] t ∧ Dropped k c t := by
  have hreg : s.register c = s.setStage c .refused := by
    rw [World.register]
    simp only [hret, if_true]
    rw [World.doReply_nil _ (chatappAddPeer_calls _ _ _ _ _), happ]
  have h1 : effect s (.addPeer .listener c) = { s with toWorld := s.setStage c .refused } := by
    rw [effect, hreg]
    simp only
    rw [if_pos]
    rw [World.setStage, World.setConn_self]
  let t : State := { s with toWorld := s.setStage c .refused }
  have ht : t.conn c = { s.conn c with stage := .refused } := World.setConn_self _ _ _
  let u : State := effect t (.refuseClose .listener c)
  have hu : u.conn c = { s.conn c with stage := .cancelling } := by
    show (World.setStage (t.closeFd c (t.sockfd c)) c .cancelling).conn c = _
    rw [World.setStage, World.setConn_self]
    show { t.conn c with stage := .cancelling } = _
    rw [ht]
  let v : State := effect u (.refuseCancel .listener c)
  have hv : v.conn c = { s.conn c with stage := .done, cancel := true } := by
    show (World.setStage (u.pthreadCancel c) c .done).conn c = _
    rw [World.setStage, World.setConn_self, World.pthreadCancel, World.setConn_self, hu]
  have hfds : v.fds = Function.update s.fds k none := by
    show Function.update s.fds (t.sockfd c) none = _
    rw [World.sockfd, ht, ← hs.number, World.sockfd]
  have hl : ∀ v : State, v.listener = .serving c → v.creating .listener = some c := fun _ =>
    creating_listener.mpr
  refine ⟨v, ?_, hs.main, rfl, hs.running, ?_, hs.other, hs.slots, hs.ids, ?_, ?_, ?_,
    fun c' hc' => ?_⟩
  · refine Run.cons trivial (step_eq_some.mpr ⟨⟨hl s hs.listener, hs.stage⟩, h1⟩) ?_
    refine Run.cons (t := u) trivial
      (step_eq_some.mpr ⟨⟨hl t hs.listener, by rw [ht]⟩, rfl⟩) ?_
    exact .single trivial (step_eq_some.mpr ⟨⟨hl u hs.listener, by rw [hu]⟩, rfl⟩)
  · rw [hfds]
    exact (Function.update_of_ne (Ne.symm hs.other) _ _).trans hs.socket
  · rw [World.sockfd, hv]
    exact hs.number
  · rw [hv]
    exact hs.handler
  · rw [hv]
  · have hkeep : v.conn c' = s.conn c' := by
      show ((((s.setStage c .refused).closeFd c _).setStage c .cancelling).pthreadCancel c
        |>.setStage c .done).conn c' = _
      simp only [World.setStage, World.pthreadCancel, World.setConn_conn, if_neg hc',
        World.closeFd]
    rw [hkeep]
    exact hs.handlers c' hc'

/-- A peer that is registered is dropped by `chatapp_disconnect_peer`. -/
theorem Taken.registered {k : Int} {c : ConnId} {s : State} (hs : Taken k c s) {i : Fin maxPeers}
    (hret : (chatappAddPeer s.app (s.conn c).sockfd (s.conn c).ip (s.conn c).port c).ret =
      s.app.nextPeerId)
    (happ : (chatappAddPeer s.app (s.conn c).sockfd (s.conn c).ip (s.conn c).port c).app =
      { s.app.setPeer i (peerSet (s.app.peers i) s.app.nextPeerId (s.conn c).sockfd (s.conn c).ip
        (s.conn c).port c) with nextPeerId := s.app.nextPeerId + 1 }) :
    ∃ t, Run step Any s [.addPeer .listener c, .disconnectPeer s.app.nextPeerId] t ∧
      Dropped k c t := by
  have hids := hs.ids
  have hk := hs.number
  subst hk
  let p := peerSet (s.app.peers i) s.app.nextPeerId (s.conn c).sockfd (s.conn c).ip
    (s.conn c).port c
  let app' : ChatApp := { s.app.setPeer i p with nextPeerId := s.app.nextPeerId + 1 }
  let w : World := { s.toWorld with app := app' }
  let r : Conn := { s.conn c with stage := .done, id := some s.app.nextPeerId }
  have hreg : s.register c = w.setConn c r := by
    rw [World.register]
    simp only [hret]
    rw [if_neg (by omega), World.doReply_nil _ (chatappAddPeer_calls _ _ _ _ _), happ]
  let t : State := { s with toWorld := w.setConn c r, listener := .checking }
  have h1 : effect s (.addPeer .listener c) = t := by
    rw [effect, hreg]
    simp only
    rw [if_neg]
    · rfl
    · rw [World.setConn_self]
      simp [r]
  -- the slot of the new ID is the only active one
  have hslot : ∀ j, (app'.peers j).active = true → j = i := by
    intro j hj
    by_contra hne
    have : app'.peers j = s.app.peers j := Function.update_of_ne hne _ _
    rw [this, hs.slots j] at hj
    cases hj
  have hp : app'.peers i = p := Function.update_self _ _ _
  obtain ⟨-, -, -, hnone⟩ | ⟨j, hj, -, -, happ', hcalls⟩ :=
    chatappDisconnectPeer_cases app' s.app.nextPeerId
  · exact absurd (by rw [hp]; rfl) (hnone i (by rw [hp]; rfl))
  · cases hslot j hj
    rw [hp] at happ' hcalls
    let w' : World := { w.setConn c r with app := app'.setPeer i p.clear }
    let u : State := { t with toWorld := (w'.closeFd c (s.sockfd c)).pthreadCancel c }
    have h2 : effect t (.disconnectPeer s.app.nextPeerId) = u := by
      show ({ t with
        toWorld := t.doReply (chatappDisconnectPeer app' s.app.nextPeerId) } : State) = u
      rw [World.doReply, hcalls, happ']
      rfl
    have hu : u.conn c = { r with cancel := true } := by
      show (World.pthreadCancel (w'.closeFd c (s.sockfd c)) c).conn c = _
      rw [World.pthreadCancel, World.setConn_self]
      show { (w.setConn c r).conn c with cancel := true } = _
      rw [World.setConn_self]
    refine ⟨u, ?_, hs.main, rfl, hs.running, ?_, hs.other, fun j => ?_, ?_, ?_, ?_, ?_,
      fun c' hc' => ?_⟩
    · refine Run.cons (t := t) trivial
        (step_eq_some.mpr ⟨⟨creating_listener.mpr hs.listener, hs.stage⟩, h1⟩) ?_
      exact .single trivial (step_eq_some.mpr ⟨hs.main, h2⟩)
    · exact (Function.update_of_ne (Ne.symm hs.other) _ _).trans hs.socket
    · show ((app'.setPeer i p.clear).peers j).active = false
      rw [ChatApp.setPeer_peers]
      split
      · rfl
      · rename_i hne
        rw [Bool.eq_false_iff]
        exact fun hj => hne (hslot j hj)
    · show 1 ≤ s.app.nextPeerId + 1
      omega
    · rw [World.sockfd, hu]
      exact hs.number
    · rw [hu]
      exact hs.handler
    · rw [hu]
    · have hkeep : u.conn c' = s.conn c' := by
        show ((w'.closeFd c (s.sockfd c)).pthreadCancel c).conn c' = _
        rw [World.pthreadCancel, World.setConn_conn, if_neg hc']
        show (w.setConn c r).conn c' = _
        rw [World.setConn_conn, if_neg hc']
      rw [hkeep]
      exact hs.handlers c' hc'

/-! ### As many as one likes -/

/-- **One round**: a peer comes and goes, and leaves one handler behind. -/
theorem Idle.round {k : Int} {s : State} (hk : 0 ≤ k) (hs : Idle k s) :
    ∃ as t, Run step Any s as t ∧ Idle k t ∧ (unreaped as).length = 1 := by
  obtain ⟨t, hrt, ht⟩ := hs.takes hk
  have hdrop : ∃ bs u, Run step Any t bs u ∧ Dropped k s.conns u ∧ unreaped bs = [] := by
    obtain ⟨hret, happ, -⟩ | ⟨i, -, -, -, hret, happ⟩ := chatappAddPeer_cases t.app
      (t.conn s.conns).sockfd (t.conn s.conns).ip (t.conn s.conns).port s.conns
    · obtain ⟨u, hru, hu⟩ := ht.refused hret happ
      exact ⟨_, u, hru, hu, unreaped_eq _⟩
    · obtain ⟨u, hru, hu⟩ := ht.registered hret happ
      exact ⟨_, u, hru, hu, unreaped_eq _⟩
  obtain ⟨bs, u, hru, hu, hbs⟩ := hdrop
  obtain ⟨v, hrv, hv⟩ := hu.ends hk
  refine ⟨_, v, (hrt.append hru).append hrv, hv, ?_⟩
  rw [unreaped_append, unreaped_append, hbs, unreaped_eq, unreaped_eq]
  rfl

theorem Idle.rounds {k : Int} {s : State} (hk : 0 ≤ k) (hs : Idle k s) (n : Nat) :
    ∃ as t, Run step Any s as t ∧ Idle k t ∧ (unreaped as).length = n := by
  induction n with
  | zero => exact ⟨[], s, .nil s, hs, rfl⟩
  | succ n ih =>
    obtain ⟨as, t, hrt, ht, hn⟩ := ih
    obtain ⟨bs, u, hru, hu, h1⟩ := ht.round hk
    exact ⟨as ++ bs, u, hrt.append hru, hu, by rw [unreaped_append, List.length_append, hn, h1]⟩

/-- **Handler threads pile up.**  As soon as the process has a descriptor number left for a
peer, no constant bounds the handlers that were created and neither joined nor detached:
there is a run with more of them, at the end of which no slot is active and all of
them have ended. -/
theorem handlers_pile_up (port : Int) {fd : Nat} {inherited : Int → Bool} {k : Int} (hk : 0 ≤ k)
    (hne : k ≠ fd) (hfree : inherited k = false) (bound : Nat) :
    ∃ as s, Run step Any (initial port fd inherited) as s ∧ bound < (unreaped as).length ∧
      (∀ i, (s.app.peers i).active = false) ∧
      ∀ c, (s.conn c).handler = .absent ∨ (s.conn c).handler = .ended := by
  obtain ⟨as, s, hr, hs, hn⟩ := (idle_initial port hne hfree).rounds hk (bound + 1)
  exact ⟨as, s, hr, by omega, hs.slots, hs.handlers⟩

theorem handlers_pile_up_hundred :
    ∃ as s, Run step Any (initial 4000 3 stdio) as s ∧ 100 < (unreaped as).length ∧
      (∀ i, (s.app.peers i).active = false) ∧
      ∀ c, (s.conn c).handler = .absent ∨ (s.conn c).handler = .ended :=
  handlers_pile_up 4000 (k := 4) (by decide) (by decide) rfl 100

/-- **No bound**, for a process that starts with its standard descriptors and one socket. -/
theorem no_bound_on_handlers :
    ¬ ∃ bound, ∀ as s, Run step Any (initial 4000 3 stdio) as s →
      (unreaped as).length ≤ bound := by
  rintro ⟨bound, h⟩
  have hs : Idle 4 (initial 4000 3 stdio) := idle_initial 4000 (by decide) rfl
  obtain ⟨as, s, hr, -, hn⟩ := hs.rounds (by decide) (bound + 1)
  have := h as s hr
  omega

end EmbeddedLinux.Chat
