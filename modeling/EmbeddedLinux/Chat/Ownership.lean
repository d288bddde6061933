import EmbeddedLinux.Chat.Threads

/-!
# Who owns a descriptor number

A number is closed more than once on every path on which a connection with a
handler ends: in the handler's loop and again in `peer_cleanup`, or by
`chatapp_disconnect_peer`, a refusal or `chatapp_shutdown` and again by the handler.
A second `close` is harmless as long as the number is free.  When the kernel has given
it to another connection in between, it closes that one (`StaleClose`).  And a
handler that runs its deregistration before its peer has been registered finds
nothing to clear, so the slot is filled with a dead connection afterwards
(`LateAdd`).

These two are all that goes wrong.  On a run without them (`InOrder`) every active
slot holds the number of its own connection, that number is open, and the
connection's handler has not run its deregistration yet (`Owned.slot`).  This file
has the invariant and one lemma for each part of a step; `Recipients.lean` puts
them together.
-/

namespace EmbeddedLinux.Chat

open Transition CString

/-! ### The conditions -/

/-- The deregistration of the handler has not been run yet. -/
def HandlerPc.inTime : HandlerPc → Bool
  | .receiving | .displaying | .leaving | .locking => true
  | _ => false

/-- The owner is a connection other than `c`. -/
def Owner.other (c : ConnId) : Owner → Bool
  | .conn c' => c' != c
  | _ => false

/-- The number of `c` refers to another connection by now. -/
def World.Reused (w : World) (c : ConnId) : Prop := (w.fds (w.sockfd c)).any (Owner.other c) = true

instance (w : World) (c : ConnId) : Decidable (w.Reused c) :=
  inferInstanceAs (Decidable (_ = true))

theorem World.reused_iff {w : World} {c : ConnId} :
    w.Reused c ↔ ∃ c', c' ≠ c ∧ w.fds (w.sockfd c) = some (.conn c') := by
  rw [World.Reused, Option.any_eq_true_iff_get]
  constructor
  · rintro ⟨hs, ho⟩
    obtain ⟨o, h⟩ := Option.isSome_iff_exists.mp hs
    simp only [h, Option.get_some] at ho
    cases o with
    | conn c' => exact ⟨c', by simpa [Owner.other] using ho, h⟩
    | inherited => cases ho
    | listener => cases ho
  · rintro ⟨c', hne, h⟩
    exact ⟨by rw [h]; rfl, by simp [h, Owner.other, hne]⟩

/-- A handler or a refusal closes a number that belongs to another connection. -/
def StaleClose (s : State) : Action → Prop
  | .loopClose c | .cleanupClose c | .refuseClose _ c => s.Reused c
  | _ => False

/-- A peer is registered after its handler has run its deregistration. -/
def LateAdd (s : State) : Action → Prop
  | .addPeer _ c => (s.conn c).handler.inTime = false
  | _ => False

def InOrder (s : State) (a : Action) : Prop := ¬ StaleClose s a ∧ ¬ LateAdd s a

instance (s : State) : (a : Action) → Decidable (StaleClose s a)
  | .loopClose _ | .cleanupClose _ | .refuseClose _ _ => inferInstanceAs (Decidable (s.Reused _))
  | .socket _ _ _ | .dial _ _ | .spawn _ _ _ | .failClose _ _ | .addPeer _ _ | .refuseCancel _ _
  | .listPeers | .sendMessage _ _ | .disconnectPeer _ | .stop | .closeListener | .join
  | .closeAll | .destroy | .check | .callAccept | .accept _ _ _ | .recv _ _ | .display _
  | .announce _ | .deregister _ | .cancelled _ => instDecidableFalse

instance (s : State) : (a : Action) → Decidable (LateAdd s a)
  | .addPeer _ _ => inferInstanceAs (Decidable (_ = false))
  | .socket _ _ _ | .dial _ _ | .spawn _ _ _ | .failClose _ _ | .refuseClose _ _
  | .refuseCancel _ _ | .listPeers | .sendMessage _ _ | .disconnectPeer _ | .stop
  | .closeListener | .join | .closeAll | .destroy | .check | .callAccept | .accept _ _ _
  | .recv _ _ | .display _ | .announce _ | .deregister _ | .loopClose _ | .cleanupClose _
  | .cancelled _ => instDecidableFalse

instance (s : State) (a : Action) : Decidable (InOrder s a) :=
  inferInstanceAs (Decidable (_ ∧ _))

/-! ### The invariant -/

def Stage.early : Stage → Bool
  | .dialing | .spawning | .failing => true
  | _ => false

def Stage.late : Stage → Bool
  | .refused | .cancelling | .done => true
  | _ => false

/-- What an active slot says of its connection. -/
structure Registered (w : World) (p : Peer) : Prop where
  sockfd_eq : w.sockfd p.threadId = p.sockfd
  id_eq : (w.conn p.threadId).id = some p.id
  fds_eq : w.fds p.sockfd = some (.conn p.threadId)
  inTime : (w.conn p.threadId).handler.inTime = true
  cancel_eq : (w.conn p.threadId).cancel = false
  stage_eq : (w.conn p.threadId).stage = .done

structure Owned (w : World) : Prop where
  ids : IdsOk w.app
  slot : ∀ i, (w.app.peers i).active = true → Registered w (w.app.peers i)
  early : ∀ c, (w.conn c).stage.early = true → (w.conn c).handler = .absent ∧
    (w.conn c).cancel = false ∧ (w.conn c).id = none ∧ w.fds (w.sockfd c) = some (.conn c)
  adding : ∀ c, (w.conn c).stage = .adding → (w.conn c).handler ≠ .absent ∧
    (w.conn c).cancel = false ∧ (w.conn c).id = none ∧
    ((w.conn c).handler.inTime = true → w.fds (w.sockfd c) = some (.conn c))
  id_lt : ∀ c k, (w.conn c).id = some k → k < w.app.nextPeerId
  id_inj : ∀ c c' k, (w.conn c).id = some k → (w.conn c').id = some k → c = c'
  unborn : ∀ c, w.conns ≤ c → (w.conn c).stage = .done ∧ (w.conn c).id = none

/-- No active slot holds connection `c`. -/
def World.NoSlot (w : World) (c : ConnId) : Prop :=
  ∀ i, (w.app.peers i).active = true → (w.app.peers i).threadId ≠ c

/-! ### The records after a part of a step -/

namespace World

theorem setConn_conn (w : World) (c c' : ConnId) (k : Conn) :
    (w.setConn c k).conn c' = if c' = c then k else w.conn c' :=
  Function.update_apply _ _ _ _

theorem setConn_self (w : World) (c : ConnId) (k : Conn) : (w.setConn c k).conn c = k :=
  Function.update_self _ _ _

/-- A record that changes keeps its number. -/
theorem setConn_sockfd {w : World} {c : ConnId} {k : Conn} (hk : k.sockfd = w.sockfd c)
    (c' : ConnId) : (w.setConn c k).sockfd c' = w.sockfd c' := by
  rw [sockfd, setConn_conn]
  split
  · rename_i e
    rw [hk, e]
  · rfl

section
variable (w : World) (fd : Int) (ip : List UInt8) (port : Int) (st : Stage)

theorem newConn_self : (w.newConn fd ip port st).conn w.conns =
    ⟨fd, ip, port, st, .absent, false, none⟩ := Function.update_self _ _ _

theorem newConn_of_ne {c : ConnId} (hc : c ≠ w.conns) :
    (w.newConn fd ip port st).conn c = w.conn c := Function.update_of_ne hc _ _

theorem newConn_sockfd_of_ne {c : ConnId} (hc : c ≠ w.conns) :
    (w.newConn fd ip port st).sockfd c = w.sockfd c := by
  rw [sockfd, newConn_of_ne w fd ip port st hc, sockfd]

/-- A new connection's number was not open, so no connection loses its own. -/
theorem newConn_fds {w : World} {fd : Int} (hfree : w.fds fd = none) {c : ConnId} {f : Int}
    (hf : w.fds f = some (.conn c)) : (w.newConn fd ip port st).fds f = some (.conn c) := by
  have hff : f ≠ fd := by
    rintro rfl
    rw [hfree] at hf
    cases hf
  rw [newConn]
  simp only [Function.update_of_ne hff, hf]

end

end World

namespace Owned

variable {w : World} {c : ConnId}

theorem noSlot_of_stage (h : Owned w) (hs : (w.conn c).stage ≠ .done) : w.NoSlot c := by
  rintro i hi rfl
  exact hs (h.slot i hi).stage_eq

theorem noSlot_of_cancel (h : Owned w) (hs : (w.conn c).cancel = true) : w.NoSlot c := by
  rintro i hi rfl
  rw [(h.slot i hi).cancel_eq] at hs
  cases hs

theorem noSlot_of_handler (h : Owned w) (hs : (w.conn c).handler.inTime = false) :
    w.NoSlot c := by
  rintro i hi rfl
  rw [(h.slot i hi).inTime] at hs
  cases hs

theorem not_early (h : Owned w) (hs : (w.conn c).handler ≠ .absent) :
    (w.conn c).stage.early = false := by
  by_contra hn
  exact hs (h.early c (by simpa using hn)).1

theorem lt_conns (h : Owned w) (hs : (w.conn c).stage ≠ .done) : c < w.conns := by
  by_contra hn
  exact hs (h.unborn c (not_lt.mp hn)).1

/-- **The number of an active slot is its connection's only.** -/
theorem slot_unique (h : Owned w) {i : Fin maxPeers} (hi : (w.app.peers i).active = true)
    (hf : w.fds (w.app.peers i).sockfd = some (.conn c)) : (w.app.peers i).threadId = c := by
  have := (h.slot i hi).fds_eq
  rw [hf] at this
  cases this
  rfl

/-- Active slots of one connection are one slot. -/
theorem slot_inj (h : Owned w) {i j : Fin maxPeers} (hi : (w.app.peers i).active = true)
    (hj : (w.app.peers j).active = true)
    (hij : (w.app.peers i).threadId = (w.app.peers j).threadId) : i = j := by
  have hid := (h.slot i hi).id_eq
  rw [hij, (h.slot j hj).id_eq, Option.some.injEq] at hid
  exact h.ids.distinct i j hi hj hid.symm

/-! ### The parts of a step -/

/-- The record of `c` changes in a way its own slot and stage allow. -/
theorem setConn (h : Owned w) (k : Conn) (hsock : k.sockfd = w.sockfd c)
    (hid : k.id = (w.conn c).id)
    (hslot : w.NoSlot c ∨ k.handler.inTime = true ∧ k.cancel = false ∧ k.stage = .done)
    (hearly : k.stage.early = true → k.handler = .absent ∧ k.cancel = false ∧ k.id = none ∧
      w.fds (w.sockfd c) = some (.conn c))
    (hadding : k.stage = .adding → k.handler ≠ .absent ∧ k.cancel = false ∧ k.id = none ∧
      (k.handler.inTime = true → w.fds (w.sockfd c) = some (.conn c)))
    (hborn : w.conns ≤ c → k.stage = .done) : Owned (w.setConn c k) := by
  have hs := World.setConn_sockfd hsock
  have hi : ∀ c', ((w.setConn c k).conn c').id = (w.conn c').id := by
    intro c'
    rw [World.setConn_conn]
    split
    · rename_i e; rw [hid, e]
    · rfl
  refine ⟨h.ids, ?_, ?_, ?_, ?_, ?_, ?_⟩
  · intro i ha
    have hp := h.slot i ha
    show Registered (w.setConn c k) (w.app.peers i)
    refine ⟨(hs _).trans hp.sockfd_eq, (hi _).trans hp.id_eq, hp.fds_eq, ?_, ?_, ?_⟩ <;>
      rw [World.setConn_conn] <;> split
    · rename_i e; exact (hslot.resolve_left (fun hn => hn i ha e)).1
    · exact hp.inTime
    · rename_i e; exact (hslot.resolve_left (fun hn => hn i ha e)).2.1
    · exact hp.cancel_eq
    · rename_i e; exact (hslot.resolve_left (fun hn => hn i ha e)).2.2
    · exact hp.stage_eq
  · intro c' hc'
    rw [hs, World.setConn_conn] at *
    split at hc'
    · rename_i e; rw [if_pos e, e]; exact hearly hc'
    · rename_i e; rw [if_neg e]; exact h.early c' hc'
  · intro c' hc'
    rw [hs, World.setConn_conn] at *
    split at hc'
    · rename_i e; rw [if_pos e, e]; exact hadding hc'
    · rename_i e; rw [if_neg e]; exact h.adding c' hc'
  · intro c' n hc'
    rw [hi] at hc'
    exact h.id_lt c' n hc'
  · intro c₁ c₂ n h1 h2
    rw [hi] at h1 h2
    exact h.id_inj c₁ c₂ n h1 h2
  · intro c' hc'
    have hu := h.unborn c' hc'
    refine ⟨?_, (hi c').trans hu.2⟩
    rw [World.setConn_conn]
    split
    · rename_i e; exact hborn (e ▸ hc')
    · exact hu.1

/-- A handler moves on; if it leaves the part before its deregistration, its
connection has no active slot. -/
theorem setHandler (h : Owned w) {pc : HandlerPc} (h0 : (w.conn c).handler ≠ .absent)
    (hpc : pc ≠ .absent)
    (hin : pc.inTime = true ∧ (w.conn c).handler.inTime = true ∨
      pc.inTime = false ∧ w.NoSlot c) : Owned (w.setHandler c pc) := by
  refine h.setConn _ rfl rfl ?_ ?_ ?_ (fun hc => (h.unborn c hc).1)
  · by_cases hn : w.NoSlot c
    · exact Or.inl hn
    · right
      rcases hin with hin | hin
      · rw [World.NoSlot] at hn
        push Not at hn
        obtain ⟨i, hi, rfl⟩ := hn
        exact ⟨hin.1, (h.slot i hi).cancel_eq, (h.slot i hi).stage_eq⟩
      · exact absurd hin.2 hn
  · intro he
    exact absurd (h.early c he).1 h0
  · intro he
    obtain ⟨-, h1, h2, h3⟩ := h.adding c he
    refine ⟨hpc, h1, h2, fun ht => ?_⟩
    rcases hin with hin | hin
    · exact h3 hin.2
    · rw [hin.1] at ht
      cases ht

/-- The maker of an unregistered connection moves on within the part before the
registration, or past it. -/
theorem setStage (h : Owned w) {st : Stage} (hs : (w.conn c).stage ≠ .done)
    (hst : st.late = true ∨ st.early = true ∧ (w.conn c).stage.early = true) :
    Owned (w.setStage c st) := by
  refine h.setConn _ rfl rfl (Or.inl (h.noSlot_of_stage hs)) ?_ ?_ ?_
  · intro he
    rcases hst with hst | hst
    · simp only at he
      cases st <;> simp [Stage.late, Stage.early] at hst he
    · exact h.early c hst.2
  · intro he
    simp only at he
    subst he
    rcases hst with hst | ⟨hst, -⟩ <;> cases hst
  · intro hc
    exact absurd (h.unborn c hc).1 hs

/-- `close` of a number that no other connection owns, by a thread whose connection
needs it no longer. -/
theorem closeFd (h : Owned w) {fd : Int} (hother : ∀ c', c' ≠ c → w.fds fd ≠ some (.conn c'))
    (hslot : w.NoSlot c) (hearly : (w.conn c).stage.early = false)
    (hadding : (w.conn c).stage = .adding → (w.conn c).handler.inTime = false) :
    Owned (w.closeFd c fd) := by
  have hkeep : ∀ c' f, c' ≠ c → w.fds f = some (.conn c') →
      (w.closeFd c fd).fds f = some (.conn c') := by
    intro c' f hne hf
    have hff : f ≠ fd := by
      rintro rfl
      exact hother c' hne hf
    rw [World.closeFd]
    simp only [Function.update_of_ne hff, hf]
  refine ⟨h.ids, ?_, ?_, ?_, h.id_lt, h.id_inj, h.unborn⟩
  · intro i hi
    have hp := h.slot i hi
    exact ⟨hp.sockfd_eq, hp.id_eq, hkeep _ _ (hslot i hi) hp.fds_eq, hp.inTime, hp.cancel_eq,
      hp.stage_eq⟩
  · intro c' hc'
    obtain ⟨h1, h2, h3, h4⟩ := h.early c' hc'
    have hne : c' ≠ c := by
      rintro rfl
      rw [show (w.conn c').stage.early = true from hc'] at hearly
      cases hearly
    exact ⟨h1, h2, h3, hkeep c' _ hne h4⟩
  · intro c' hc'
    obtain ⟨h1, h2, h3, h4⟩ := h.adding c' hc'
    refine ⟨h1, h2, h3, fun ht => ?_⟩
    have hne : c' ≠ c := by
      rintro rfl
      rw [show (w.conn c').handler.inTime = true from ht] at hadding
      exact absurd (hadding hc') (by simp)
    exact hkeep c' _ hne (h4 ht)

theorem pthreadCancel (h : Owned w) (hslot : w.NoSlot c) (hearly : (w.conn c).stage.early = false)
    (hadding : (w.conn c).stage ≠ .adding) : Owned (w.pthreadCancel c) := by
  refine h.setConn _ rfl rfl (Or.inl hslot) ?_ ?_ (fun hc => (h.unborn c hc).1)
  · intro he
    rw [hearly] at he
    cases he
  · intro he
    exact absurd he hadding

/-- A new connection gets a number that was not open, so no other loses its own. -/
theorem newConn (h : Owned w) {fd : Int} {ip : List UInt8} {port : Int} {st : Stage}
    (hfree : w.fds fd = none) (hst : st.early = true) : Owned (w.newConn fd ip port st) := by
  have hkeep : ∀ c' f, w.fds f = some (.conn c') →
      (w.newConn fd ip port st).fds f = some (.conn c') :=
    fun c' f hf => World.newConn_fds ip port st hfree hf
  have hold := fun c' => w.newConn_of_ne fd ip port st (c := c')
  have hnew := w.newConn_self fd ip port st
  have hsock := fun c' => w.newConn_sockfd_of_ne fd ip port st (c := c')
  refine ⟨h.ids, ?_, ?_, ?_, ?_, ?_, ?_⟩
  · intro i hi
    have hp := h.slot i hi
    have hne : (w.app.peers i).threadId ≠ w.conns := by
      intro e
      have := hp.id_eq
      rw [e, (h.unborn _ le_rfl).2] at this
      cases this
    show Registered (w.newConn fd ip port st) (w.app.peers i)
    exact ⟨(hsock _ hne).trans hp.sockfd_eq, by rw [hold _ hne]; exact hp.id_eq,
      hkeep _ _ hp.fds_eq, by rw [hold _ hne]; exact hp.inTime,
      by rw [hold _ hne]; exact hp.cancel_eq, by rw [hold _ hne]; exact hp.stage_eq⟩
  · intro c' hc'
    by_cases hne : c' = w.conns
    · subst hne
      rw [World.sockfd, hnew]
      exact ⟨rfl, rfl, rfl, Function.update_self _ _ _⟩
    · rw [hsock c' hne, hold c' hne] at *
      obtain ⟨h1, h2, h3, h4⟩ := h.early c' hc'
      exact ⟨h1, h2, h3, hkeep c' _ h4⟩
  · intro c' hc'
    by_cases hne : c' = w.conns
    · subst hne
      rw [hnew] at hc'
      simp only at hc'
      subst hc'
      cases hst
    · rw [hsock c' hne, hold c' hne] at *
      obtain ⟨h1, h2, h3, h4⟩ := h.adding c' hc'
      exact ⟨h1, h2, h3, fun ht => hkeep c' _ (h4 ht)⟩
  · intro c' k hk
    by_cases hne : c' = w.conns
    · subst hne
      rw [hnew] at hk
      cases hk
    · rw [hold c' hne] at hk
      exact h.id_lt c' k hk
  · intro c₁ c₂ k h1 h2
    have hne₁ : c₁ ≠ w.conns := by
      rintro rfl
      rw [hnew] at h1
      cases h1
    have hne₂ : c₂ ≠ w.conns := by
      rintro rfl
      rw [hnew] at h2
      cases h2
    rw [hold _ hne₁] at h1
    rw [hold _ hne₂] at h2
    exact h.id_inj c₁ c₂ k h1 h2
  · intro c' hc'
    have hlt : w.conns + 1 ≤ c' := hc'
    rw [hold c' (Nat.ne_of_gt hlt)]
    exact h.unborn c' (by omega)

end Owned

/-! ### The locked sections -/

/-- `close` and then `pthread_cancel` on the fields of a slot. -/
def World.endPeer (w : World) (p : Peer) : World :=
  (w.closeFd p.threadId p.sockfd).pthreadCancel p.threadId

theorem World.foldl_endCalls (L : List Peer) (w : World) :
    (L.flatMap endCalls).foldl World.doCall w = L.foldl World.endPeer w := by
  rw [List.foldl_flatMap]
  rfl

@[simp] theorem World.foldl_endPeer_app (L : List Peer) (w : World) :
    (L.foldl World.endPeer w).app = w.app := by
  induction L generalizing w with
  | nil => rfl
  | cons p L ih => rw [List.foldl_cons, ih]; rfl

@[simp] theorem World.foldl_endPeer_conns (L : List Peer) (w : World) :
    (L.foldl World.endPeer w).conns = w.conns := by
  induction L generalizing w with
  | nil => rfl
  | cons p L ih => rw [List.foldl_cons, ih]; rfl

/-- Ending peers frees their numbers and no other. -/
theorem World.foldl_endPeer_fds (L : List Peer) (w : World) {fd : Int}
    (h : ∀ p ∈ L, p.sockfd ≠ fd) : (L.foldl World.endPeer w).fds fd = w.fds fd := by
  induction L generalizing w with
  | nil => rfl
  | cons p L ih =>
    rw [List.foldl_cons, ih _ (fun q hq => h q (List.mem_cons_of_mem _ hq))]
    exact Function.update_of_ne (Ne.symm (h p List.mem_cons_self)) _ _

/-- Ending peers changes the records of their connections only, and there only the
pending cancellation. -/
theorem World.foldl_endPeer_conn (L : List Peer) (w : World) (c : ConnId) :
    (L.foldl World.endPeer w).conn c =
      { w.conn c with cancel := (w.conn c).cancel || L.any (fun p => p.threadId == c) } := by
  induction L generalizing w with
  | nil => simp
  | cons p L ih =>
    rw [List.foldl_cons, ih, List.any_cons]
    have hp : (w.endPeer p).conn c =
        { w.conn c with cancel := (w.conn c).cancel || (p.threadId == c) } := by
      show ((w.closeFd p.threadId p.sockfd).setConn p.threadId _).conn c = _
      rw [World.setConn_conn]
      split
      · rename_i e
        subst e
        simp [World.closeFd]
      · rename_i e
        have : (p.threadId == c) = false := by simpa using Ne.symm e
        rw [this, Bool.or_false]
        rfl
    rw [hp, Bool.or_assoc]

/-- A section that ends the peers `L`. -/
theorem World.doReply_eq (w : World) {r : Reply} {L : List Peer}
    (h : r.calls = L.flatMap endCalls) :
    w.doReply r = L.foldl World.endPeer { w with app := r.app } := by
  rw [World.doReply, h, World.foldl_endCalls]

theorem World.doReply_conn (w : World) {r : Reply} {L : List Peer}
    (h : r.calls = L.flatMap endCalls) (c : ConnId) : (w.doReply r).conn c =
      { w.conn c with cancel := (w.conn c).cancel || L.any (fun p => p.threadId == c) } := by
  rw [w.doReply_eq h, World.foldl_endPeer_conn]

/-- A section without calls only changes the table. -/
theorem World.doReply_nil (w : World) {r : Reply} (h : r.calls = []) :
    w.doReply r = { w with app := r.app } := by
  rw [World.doReply, h]
  rfl

theorem deregister_calls (app : ChatApp) (fd : Int) : (deregister app fd).calls = [] := by
  unfold deregister
  split <;> rfl

theorem chatappAddPeer_calls (app : ChatApp) (fd : Int) (ip : List UInt8) (port : Int)
    (tid : Tid) : (chatappAddPeer app fd ip port tid).calls = [] := by
  unfold chatappAddPeer
  split
  · rfl
  · split <;> rfl

/-- The active slots, in the order of the array. -/
def ChatApp.activePeers (app : ChatApp) : List Peer :=
  ((List.finRange maxPeers).filter (fun i => (app.peers i).active)).map app.peers

theorem ChatApp.mem_activePeers {app : ChatApp} {p : Peer} :
    p ∈ app.activePeers ↔ ∃ i, (app.peers i).active = true ∧ app.peers i = p := by
  simp [ChatApp.activePeers]

theorem closeAll_calls (app : ChatApp) :
    (closeAll app).calls = app.activePeers.flatMap endCalls := by
  rw [closeAll, flatMap_active, ChatApp.activePeers, List.flatMap_map]

namespace Owned

variable {w : World} {c : ConnId}

/-- **A locked section that ends some of the active peers** and clears their slots
leaves the other slots and the unregistered connections as they were. -/
theorem endPeers (h : Owned w) {r : Reply} {L : List Peer} (hcalls : r.calls = L.flatMap endCalls)
    (hL : ∀ p ∈ L, ∃ i, (w.app.peers i).active = true ∧ w.app.peers i = p)
    (hids : IdsOk r.app) (hnext : r.app.nextPeerId = w.app.nextPeerId)
    (hkeep : ∀ i, (r.app.peers i).active = true → r.app.peers i = w.app.peers i ∧
      ∀ p ∈ L, p.threadId ≠ (w.app.peers i).threadId) : Owned (w.doReply r) := by
  have hw := w.doReply_eq hcalls
  have hconn := w.doReply_conn hcalls
  have hfds : ∀ c f, (∀ p ∈ L, p.threadId ≠ c) → w.fds f = some (.conn c) →
      (w.doReply r).fds f = some (.conn c) := by
    intro c f hc hf
    rw [hw, World.foldl_endPeer_fds]
    · exact hf
    · rintro p hp rfl
      obtain ⟨i, hi, rfl⟩ := hL p hp
      exact hc _ hp (h.slot_unique hi hf)
  have hcancel : ∀ c, (∀ p ∈ L, p.threadId ≠ c) →
      L.any (fun p => p.threadId == c) = false := by
    intro c hc
    rw [List.any_eq_false]
    intro p hp
    simpa using hc p hp
  have hdone : ∀ c, (w.conn c).stage ≠ .done → ∀ p ∈ L, p.threadId ≠ c := by
    intro c hc p hp
    obtain ⟨i, hi, rfl⟩ := hL p hp
    exact h.noSlot_of_stage hc i hi
  have happ : (w.doReply r).app = r.app := by
    rw [hw, World.foldl_endPeer_app]
  have hconns : (w.doReply r).conns = w.conns := by
    rw [hw, World.foldl_endPeer_conns]
  refine ⟨by rw [happ]; exact hids, ?_, ?_, ?_, ?_, ?_, ?_⟩
  · intro i hi
    rw [happ] at hi ⊢
    obtain ⟨he, hne⟩ := hkeep i hi
    rw [he] at hi ⊢
    have hp := h.slot i hi
    refine ⟨?_, by rw [hconn]; exact hp.id_eq, hfds _ _ hne hp.fds_eq,
      by rw [hconn]; exact hp.inTime, ?_, by rw [hconn]; exact hp.stage_eq⟩
    · rw [World.sockfd, hconn]
      exact hp.sockfd_eq
    · rw [hconn, hcancel _ hne]
      simpa using hp.cancel_eq
  · intro c hc
    rw [World.sockfd, hconn] at *
    obtain ⟨h1, h2, h3, h4⟩ := h.early c hc
    have hne := hdone c (by intro e; rw [e] at hc; cases hc)
    refine ⟨h1, ?_, h3, hfds c _ hne h4⟩
    simp [h2, hcancel c hne]
  · intro c hc
    rw [World.sockfd, hconn] at *
    obtain ⟨h1, h2, h3, h4⟩ := h.adding c hc
    have hne := hdone c (by intro e; rw [e] at hc; cases hc)
    refine ⟨h1, ?_, h3, fun ht => hfds c _ hne (h4 ht)⟩
    simp [h2, hcancel c hne]
  · intro c k hk
    rw [hconn] at hk
    rw [happ, hnext]
    exact h.id_lt c k hk
  · intro c c' k h1 h2
    rw [hconn] at h1 h2
    exact h.id_inj c c' k h1 h2
  · intro c hc
    rw [hconns] at hc
    rw [hconn]
    exact h.unborn c hc

theorem disconnectPeer (h : Owned w) (id : Int) :
    Owned (w.doReply (chatappDisconnectPeer w.app id)) := by
  have hids := idsOk_reply h.ids (.disconnectPeer id)
  rw [reply] at hids
  obtain ⟨-, happ, hcalls, -⟩ | ⟨k, hk, -, -, happ, hcalls⟩ := chatappDisconnectPeer_cases w.app id
  · refine h.endPeers (L := []) hcalls (by simp) hids (by rw [happ]) ?_
    intro i hi
    exact ⟨by rw [happ], by simp⟩
  · refine h.endPeers (L := [w.app.peers k]) (by rw [hcalls]; simp) ?_ hids (by rw [happ]; rfl) ?_
    · intro p hp
      rw [List.mem_singleton] at hp
      exact ⟨k, hk, hp.symm⟩
    · intro i hi
      rw [happ, ChatApp.setPeer_peers] at *
      split at hi
      · simp at hi
      · rename_i hne
        refine ⟨by rw [if_neg hne], ?_⟩
        intro p hp e
        rw [List.mem_singleton] at hp
        subst hp
        exact hne (h.slot_inj hi hk e.symm)

theorem deregister (h : Owned w) (fd : Int) : Owned (w.doReply (Chat.deregister w.app fd)) := by
  have hids := idsOk_reply h.ids (.deregister fd)
  rw [reply] at hids
  have hcalls : (Chat.deregister w.app fd).calls = ([] : List Peer).flatMap endCalls :=
    deregister_calls w.app fd
  obtain ⟨happ, -⟩ | ⟨k, -, -, happ⟩ := deregister_cases w.app fd
  · refine h.endPeers hcalls (by simp) hids (by rw [happ]) (fun i hi => ⟨by rw [happ], by simp⟩)
  · refine h.endPeers hcalls (by simp) hids (by rw [happ]; rfl) ?_
    intro i hi
    rw [happ, ChatApp.setPeer_peers] at *
    split at hi
    · simp at hi
    · rename_i hne
      exact ⟨by rw [if_neg hne], by simp⟩

theorem closeAll (h : Owned w) : Owned (w.doReply (Chat.closeAll w.app)) := by
  refine h.endPeers (closeAll_calls w.app) ?_ (idsOk_reply h.ids .closeAll) rfl ?_
  · intro p hp
    exact ChatApp.mem_activePeers.mp hp
  · intro i hi
    rw [closeAll_active] at hi
    cases hi

/-- A section that makes no call and leaves the slots and the counter as they were. -/
theorem sameApp (h : Owned w) {r : Reply} (hpeers : r.app.peers = w.app.peers)
    (hnext : r.app.nextPeerId = w.app.nextPeerId) (hdo : w.doReply r = { w with app := r.app }) :
    Owned (w.doReply r) := by
  rw [hdo]
  have hids : IdsOk r.app := by
    obtain ⟨h1, h2, h3, h4⟩ := h.ids
    refine ⟨by rw [hnext]; exact h1, by rw [hnext]; exact h2, ?_, ?_⟩
    · rw [hpeers, hnext]; exact h3
    · rw [hpeers]; exact h4
  refine ⟨hids, ?_, h.early, h.adding, ?_, h.id_inj, h.unborn⟩
  · intro i hi
    have hi' : (w.app.peers i).active = true := by rw [← hpeers]; exact hi
    obtain ⟨h1, h2, h3, h4, h5, h6⟩ := h.slot i hi'
    show Registered _ (r.app.peers i)
    rw [hpeers]
    exact ⟨h1, h2, h3, h4, h5, h6⟩
  · intro c k hk
    show k < r.app.nextPeerId
    rw [hnext]
    exact h.id_lt c k hk

/-- What a registration is: a refusal, or a free slot is filled under the counter's value. -/
theorem register_cases (hids : IdsOk w.app) (c : ConnId) :
    w.register c = w.setStage c .refused ∨
    ∃ k app, (w.app.peers k).active = false ∧ IdsOk app ∧
      app.nextPeerId = w.app.nextPeerId + 1 ∧
      app.peers = (w.app.setPeer k (peerSet (w.app.peers k) w.app.nextPeerId (w.conn c).sockfd
        (w.conn c).ip (w.conn c).port c)).peers ∧
      w.register c = ({ w with app := app } : World).setConn c
        { w.conn c with stage := .done, id := some w.app.nextPeerId } := by
  have hok := idsOk_reply hids (.addPeer (w.conn c).sockfd (w.conn c).ip (w.conn c).port c)
  rw [reply] at hok
  rw [World.register, w.doReply_nil (chatappAddPeer_calls _ _ _ _ _)]
  obtain ⟨hret, happ, -⟩ | ⟨k, -, hk, -, hret, happ⟩ := chatappAddPeer_cases w.app
    (w.conn c).sockfd (w.conn c).ip (w.conn c).port c
  · left
    simp only [hret, happ, if_true]
  · right
    have hpos := hids.pos
    refine ⟨k, _, hk, hok, by rw [happ], by rw [happ], ?_⟩
    rw [if_neg (by rw [hret]; omega), hret]

/-- **A registration in time**: the slot it takes gets a connection whose number is
open and whose handler will still look for the slot. -/
theorem register (h : Owned w) (hs : (w.conn c).stage = .adding)
    (hin : (w.conn c).handler.inTime = true) : Owned (w.register c) := by
  obtain ⟨h1, h2, h3, h4⟩ := h.adding c hs
  have hnd : (w.conn c).stage ≠ .done := by rw [hs]; simp
  obtain he | ⟨k, app, hk, hids, hnext, hpeers, he⟩ := register_cases h.ids c
  · rw [he]
    exact h.setStage hnd (Or.inl rfl)
  · rw [he]
    set k' : Conn := { w.conn c with stage := .done, id := some w.app.nextPeerId } with hk'
    have hother : ∀ c', c' ≠ c → ∀ (v : World), (v.setConn c k').conn c' = v.conn c' := by
      intro c' hne v
      rw [World.setConn_conn, if_neg hne]
    have hself : ∀ v : World, (v.setConn c k').conn c = k' := fun v => World.setConn_self v c k'
    have hns := h.noSlot_of_stage hnd
    have hslot : ∀ i, app.peers i = if i = k then peerSet (w.app.peers k) w.app.nextPeerId
        (w.conn c).sockfd (w.conn c).ip (w.conn c).port c else w.app.peers i := by
      intro i
      rw [hpeers, ChatApp.setPeer_peers]
    refine ⟨hids, ?_, ?_, ?_, ?_, ?_, ?_⟩
    · intro i hi
      change (app.peers i).active = true at hi
      show Registered _ (app.peers i)
      rw [hslot] at hi ⊢
      split at hi
      · rw [if_pos ‹_›]
        refine ⟨?_, ?_, h4 hin, ?_, ?_, ?_⟩
        · show ((World.setConn _ c k').conn c).sockfd = (w.conn c).sockfd
          rw [hself]
        · show ((World.setConn _ c k').conn c).id = some w.app.nextPeerId
          rw [hself]
        · show ((World.setConn _ c k').conn c).handler.inTime = true
          rw [hself]
          exact hin
        · show ((World.setConn _ c k').conn c).cancel = false
          rw [hself]
          exact h2
        · show ((World.setConn _ c k').conn c).stage = .done
          rw [hself]
      · rw [if_neg ‹_›]
        obtain ⟨r1, r2, r3, r4, r5, r6⟩ := h.slot i hi
        have hne := hns i hi
        exact ⟨by rw [World.sockfd, hother _ hne]; exact r1, by rw [hother _ hne]; exact r2, r3,
          by rw [hother _ hne]; exact r4, by rw [hother _ hne]; exact r5,
          by rw [hother _ hne]; exact r6⟩
    · intro c' hc'
      have hne : c' ≠ c := by
        rintro rfl
        rw [hself] at hc'
        cases hc'
      rw [World.sockfd, hother _ hne] at *
      exact h.early c' hc'
    · intro c' hc'
      have hne : c' ≠ c := by
        rintro rfl
        rw [hself] at hc'
        cases hc'
      rw [World.sockfd, hother _ hne] at *
      exact h.adding c' hc'
    · intro c' n hn
      show n < app.nextPeerId
      rw [hnext]
      by_cases hne : c' = c
      · subst hne
        rw [hself] at hn
        cases hn
        omega
      · rw [hother _ hne] at hn
        have := h.id_lt c' n hn
        omega
    · -- the counter's value is the ID of no other connection
      have hfresh : ∀ c', c' ≠ c → (w.conn c').id ≠ some w.app.nextPeerId := by
        intro c' _ e
        have := h.id_lt c' _ e
        omega
      intro c₁ c₂ n h₁ h₂
      by_cases e₁ : c₁ = c <;> by_cases e₂ : c₂ = c
      · rw [e₁, e₂]
      · rw [e₁, hself] at h₁
        rw [hother _ e₂] at h₂
        exact absurd (h₂.trans h₁.symm) (hfresh c₂ e₂)
      · rw [e₂, hself] at h₂
        rw [hother _ e₁] at h₁
        exact absurd (h₁.trans h₂.symm) (hfresh c₁ e₁)
      · rw [hother _ e₁] at h₁
        rw [hother _ e₂] at h₂
        exact h.id_inj c₁ c₂ n h₁ h₂
    · intro c' hc'
      have hne : c' ≠ c := by
        rintro rfl
        exact absurd (h.lt_conns hnd) (not_lt.mpr hc')
      rw [hother _ hne]
      exact h.unborn c' hc'

/-- After the deregistration of `c`'s handler no active slot holds `c`: an active
slot with its number is `c`'s own, and there is only one. -/
theorem noSlot_deregister (h : Owned w) :
    ({ w with app := (Chat.deregister w.app (w.sockfd c)).app } : World).NoSlot c := by
  intro i hi
  simp only at hi ⊢
  obtain ⟨happ, hno⟩ | ⟨k, hk, hkfd, happ⟩ := deregister_cases w.app (w.sockfd c)
  · rw [happ] at hi ⊢
    rintro rfl
    exact hno i hi (h.slot i hi).sockfd_eq.symm
  · rw [happ, ChatApp.setPeer_peers] at hi ⊢
    split at hi
    · simp at hi
    · rename_i hne
      rw [if_neg hne]
      rintro rfl
      have hi' := h.slot i hi
      have ht : (w.app.peers k).threadId = (w.app.peers i).threadId :=
        h.slot_unique hk (by rw [hkfd, hi'.sockfd_eq]; exact hi'.fds_eq)
      exact hne (h.slot_inj hi hk ht.symm)

end Owned

/-! ### The listening socket -/

/-- The listening socket is open, and no connection ever had its number. -/
def World.Listens (w : World) : Prop :=
  w.fds w.app.listenerSocket = some .listener ∧ ∀ c, w.sockfd c ≠ w.app.listenerSocket

/-- The main thread has not closed the listening socket. -/
def MainPc.listening : MainPc → Bool
  | .ready | .connecting _ | .stopping => true
  | _ => false

theorem reply_listenerSocket (app : ChatApp) (op : Op) :
    (reply app op).app.listenerSocket = app.listenerSocket := by
  cases op with
  | addPeer sockfd ip port tid =>
    obtain ⟨-, h, -⟩ | ⟨k, -, -, -, -, h⟩ := chatappAddPeer_cases app sockfd ip port tid <;>
      rw [reply, h]
    rfl
  | listPeers => rfl
  | sendMessage id msg => rw [reply, chatappSendMessage_app]
  | disconnectPeer id =>
    obtain ⟨-, h, -⟩ | ⟨k, -, -, -, h, -⟩ := chatappDisconnectPeer_cases app id <;> rw [reply, h]
    rfl
  | deregister fd =>
    obtain ⟨h, -⟩ | ⟨k, -, -, h⟩ := deregister_cases app fd <;> rw [reply, h]
    rfl
  | stop => rfl
  | closeAll => rfl

namespace World.Listens

variable {w : World} {c : ConnId}

theorem setConn (h : w.Listens) {k : Conn} (hk : k.sockfd = w.sockfd c) :
    (w.setConn c k).Listens := by
  refine ⟨h.1, fun c' => ?_⟩
  rw [World.setConn_sockfd hk]
  exact h.2 c'

theorem closeFd (h : w.Listens) {fd : Int} (hfd : fd ≠ w.app.listenerSocket) :
    (w.closeFd c fd).Listens :=
  ⟨(Function.update_of_ne (Ne.symm hfd) _ _).trans h.1, h.2⟩

theorem newConn (h : w.Listens) {fd : Int} {ip : List UInt8} {port : Int} {st : Stage}
    (hfree : w.fds fd = none) : (w.newConn fd ip port st).Listens := by
  have hfd : fd ≠ w.app.listenerSocket := by
    rintro rfl
    rw [h.1] at hfree
    cases hfree
  refine ⟨(Function.update_of_ne (Ne.symm hfd) _ _).trans h.1, fun c' => ?_⟩
  rw [World.sockfd, World.newConn]
  simp only [Function.update_apply]
  split
  · exact hfd
  · exact h.2 c'

theorem endPeer (h : w.Listens) {p : Peer} (hp : p.sockfd ≠ w.app.listenerSocket) :
    (w.endPeer p).Listens :=
  (h.closeFd hp).setConn rfl

/-- A locked section without calls. -/
theorem withApp (h : w.Listens) {app : ChatApp} (happ : app.listenerSocket = w.app.listenerSocket) :
    ({ w with app := app } : World).Listens := by
  refine ⟨?_, fun c => ?_⟩
  · show w.fds app.listenerSocket = _
    rw [happ]
    exact h.1
  · show w.sockfd c ≠ app.listenerSocket
    rw [happ]
    exact h.2 c

end World.Listens

end EmbeddedLinux.Chat
