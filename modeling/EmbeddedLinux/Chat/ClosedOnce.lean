import EmbeddedLinux.Chat.Closing
import Mathlib.Data.List.FinRange

/-!
# Closed once, while the handlers stay

On a run on which no handler leaves its loop (`Stays`), a connection is alive as long
as its maker holds its number or an active slot has it.  `Once` says that its number is
its own then and has not been closed, and that a connection that is no longer alive has
been closed once.  The maker's `close`, `chatapp_disconnect_peer` and
`chatapp_shutdown` each end the life of the connections they close, so `Once` is
kept, and with it `ClosedOnce` (`closed_once`).
-/

namespace EmbeddedLinux.Chat

open Transition CString

/-- A handler leaves its `recv` loop: `recv` returns `n <= 0`, or a cancellation is
acted on. -/
def LeavesLoop : Action → Prop
  | .recv _ gone => gone = true
  | .cancelled _ => True
  | _ => False

def Stays (_ : State) (a : Action) : Prop := ¬ LeavesLoop a

instance : (a : Action) → Decidable (LeavesLoop a)
  | .recv _ _ => inferInstanceAs (Decidable (_ = true))
  | .cancelled _ => instDecidableTrue
  | .socket _ _ _ | .dial _ _ | .spawn _ _ _ | .failClose _ _ | .addPeer _ _ | .refuseClose _ _
  | .refuseCancel _ _ | .listPeers | .sendMessage _ _ | .disconnectPeer _ | .stop
  | .closeListener | .join | .closeAll | .destroy | .check | .callAccept | .accept _ _ _
  | .display _ | .announce _ | .deregister _ | .loopClose _ | .cleanupClose _ =>
    instDecidableFalse

instance (s : State) (a : Action) : Decidable (Stays s a) := inferInstanceAs (Decidable (¬ _))

instance (w : World) (c : ConnId) : Decidable (w.NoSlot c) :=
  inferInstanceAs (Decidable (∀ _ : Fin maxPeers, _ → _))

/-- Neither its maker nor an active slot has the connection any longer. -/
def Over (w : World) (c : ConnId) : Prop :=
  c < w.conns ∧ (w.conn c).stage = .done ∧ w.NoSlot c

/-- Every connection is closed at most once, exactly once when it is over, and only
while the number is its own. -/
structure ClosedOnce (w : World) : Prop where
  le_one : ∀ c, w.closes c ≤ 1
  ended : ∀ c, Over w c → w.closes c = 1
  hit : ∀ e ∈ w.closed, e.hit = some (.conn e.conn)

/-- Ending peers of distinct connections closes each of these once more. -/
theorem World.closes_foldl_endPeer (L : List Peer) (w : World) (c : ConnId) :
    (L.foldl World.endPeer w).closes c = w.closes c + (L.map Peer.threadId).count c := by
  induction L generalizing w with
  | nil => rfl
  | cons p L ih =>
    rw [List.foldl_cons, ih, World.closes_endPeer, List.map_cons, List.count_cons]
    by_cases hp : p.threadId = c
    · simp [hp]
      omega
    · simp [hp]

/-- Ending peers that own distinct numbers hits each of these while it is theirs. -/
theorem World.hit_foldl_endPeer (L : List Peer) (w : World)
    (hown : ∀ p ∈ L, w.fds p.sockfd = some (.conn p.threadId))
    (hnd : (L.map Peer.threadId).Nodup) (hw : ∀ e ∈ w.closed, e.hit = some (.conn e.conn)) :
    ∀ e ∈ (L.foldl World.endPeer w).closed, e.hit = some (.conn e.conn) := by
  induction L generalizing w with
  | nil => exact hw
  | cons p L ih =>
    rw [List.map_cons, List.nodup_cons] at hnd
    have hp := hown p List.mem_cons_self
    refine ih _ ?_ hnd.2 ?_
    · intro q hq
      have hne : q.sockfd ≠ p.sockfd := by
        intro e
        have hq' := hown q (List.mem_cons_of_mem _ hq)
        rw [e, hp, Option.some.injEq, Owner.conn.injEq] at hq'
        rw [hq'] at hnd
        exact hnd.1 (List.mem_map_of_mem hq)
      show Function.update w.fds p.sockfd none q.sockfd = _
      rw [Function.update_of_ne hne]
      exact hown q (List.mem_cons_of_mem _ hq)
    · intro e he
      change e ∈ w.closed ++ [⟨p.threadId, w.fds p.sockfd⟩] at he
      rw [List.mem_append, List.mem_singleton] at he
      rcases he with he | rfl
      · exact hw e he
      · exact hp

/-! ### Once, while the handlers stay -/

/-- The connection's maker has not closed the number, nor given the connection to a slot. -/
def Stage.held : Stage → Bool
  | .dialing | .spawning | .failing | .adding | .refused => true
  | _ => false

/-- A handler in its loop, or none. -/
def HandlerPc.stays : HandlerPc → Bool
  | .absent | .receiving | .displaying => true
  | _ => false

/-- Somebody is still to close the connection: its maker, or who ends its slot. -/
def Live (w : World) (c : ConnId) : Prop := (w.conn c).stage.held = true ∨ ¬ w.NoSlot c

structure Once (w : World) : Prop where
  stays : ∀ c, (w.conn c).handler.stays = true
  own : ∀ c, Live w c → w.fds (w.sockfd c) = some (.conn c)
  unclosed : ∀ c, Live w c → w.closes c = 0
  unborn : ∀ c, w.conns ≤ c → w.closes c = 0
  ended : ∀ c, c < w.conns → ¬ Live w c → w.closes c = 1
  hit : ∀ e ∈ w.closed, e.hit = some (.conn e.conn)

theorem Once.closedOnce {w : World} (h : Once w) : ClosedOnce w := by
  refine ⟨fun c => ?_, fun c hc => ?_, h.hit⟩
  · by_cases hl : Live w c
    · rw [h.unclosed c hl]
      omega
    · by_cases hb : c < w.conns
      · rw [h.ended c hb hl]
      · rw [h.unborn c (not_lt.mp hb)]
        omega
  · refine h.ended c hc.1 ?_
    rintro (hl | hl)
    · rw [hc.2.1] at hl
      cases hl
    · exact hl hc.2.2

namespace Once

variable {w w' : World} {c : ConnId}

/-- A part of a step that closes nothing and leaves alive what was alive. -/
theorem congr (h : Once w) (hfds : w'.fds = w.fds) (hclosed : w'.closed = w.closed)
    (hconns : w'.conns = w.conns) (hsock : ∀ c, w'.sockfd c = w.sockfd c)
    (hstays : ∀ c, (w'.conn c).handler.stays = true) (hlive : ∀ c, Live w' c ↔ Live w c) :
    Once w' := by
  have hcl : ∀ c, w'.closes c = w.closes c := by
    intro c
    rw [World.closes, World.closes, hclosed]
  refine ⟨hstays, fun c hc => ?_, fun c hc => ?_, fun c hc => ?_, fun c hc hl => ?_, ?_⟩
  · rw [hfds, hsock]
    exact h.own c ((hlive c).mp hc)
  · rw [hcl]
    exact h.unclosed c ((hlive c).mp hc)
  · rw [hcl]
    exact h.unborn c (hconns ▸ hc)
  · rw [hcl]
    exact h.ended c (hconns ▸ hc) (fun hl' => hl ((hlive c).mpr hl'))
  · rw [hclosed]
    exact h.hit

/-- A record changes, and its maker holds the number as before. -/
theorem setConn (h : Once w) {k : Conn} (hsock : k.sockfd = w.sockfd c)
    (hstays : k.handler.stays = true) (hheld : k.stage.held = (w.conn c).stage.held) :
    Once (w.setConn c k) := by
  refine h.congr rfl rfl rfl (World.setConn_sockfd hsock) (fun c' => ?_) (fun c' => ?_)
  · rw [World.setConn_conn]
    split
    · exact hstays
    · exact h.stays c'
  · rw [Live, World.setConn_conn]
    split
    · rename_i e; rw [hheld, e]; rfl
    · rfl

/-- A locked section that keeps the active slots. -/
theorem withApp (h : Once w) {app : ChatApp} (hpeers : app.peers = w.app.peers) :
    Once { w with app := app } := by
  refine h.congr rfl rfl rfl (fun _ => rfl) h.stays (fun c => ?_)
  rw [Live, Live, World.NoSlot, World.NoSlot]
  simp only [hpeers]

/-- A new connection is held by its maker. -/
theorem newConn (h : Once w) {fd : Int} {ip : List UInt8} {port : Int} {st : Stage}
    (hfree : w.fds fd = none) (hst : st.held = true) : Once (w.newConn fd ip port st) := by
  have hold := fun c' => w.newConn_of_ne fd ip port st (c := c')
  have hnew := w.newConn_self fd ip port st
  have hlive : ∀ c', c' ≠ w.conns → (Live (w.newConn fd ip port st) c' ↔ Live w c') := by
    intro c' hne
    rw [Live, hold c' hne]
    rfl
  refine ⟨fun c' => ?_, fun c' hc' => ?_, fun c' hc' => ?_, fun c' hc' => ?_, fun c' hc' hl => ?_,
    h.hit⟩
  · by_cases hne : c' = w.conns
    · rw [hne, hnew]
      rfl
    · rw [hold c' hne]
      exact h.stays c'
  · by_cases hne : c' = w.conns
    · rw [hne, World.sockfd, hnew]
      exact Function.update_self _ _ _
    · rw [w.newConn_sockfd_of_ne fd ip port st hne]
      exact World.newConn_fds ip port st hfree (h.own c' ((hlive c' hne).mp hc'))
  · by_cases hne : c' = w.conns
    · rw [hne]
      exact h.unborn _ le_rfl
    · exact h.unclosed c' ((hlive c' hne).mp hc')
  · exact h.unborn c' (Nat.le_of_succ_le hc')
  · have hlt : c' < w.conns + 1 := hc'
    have hne : c' ≠ w.conns := by
      rintro rfl
      exact hl (Or.inl (by rw [hnew]; exact hst))
    exact h.ended c' (by omega) (fun hl' => hl ((hlive c' hne).mpr hl'))

/-- **The maker closes the number it holds.** -/
theorem closeFd (h : Once w) (hO : Owned w) {st : Stage} (hheld : (w.conn c).stage.held = true)
    (hst : st.held = false) : Once ((w.closeFd c (w.sockfd c)).setStage c st) := by
  have hnd : (w.conn c).stage ≠ .done := by
    intro e
    rw [e] at hheld
    cases hheld
  have hlive : Live w c := Or.inl hheld
  have hown := h.own c hlive
  have hself : ((w.closeFd c (w.sockfd c)).setStage c st).conn c = { w.conn c with stage := st } :=
    World.setConn_self _ _ _
  have hother : ∀ c', c' ≠ c → ((w.closeFd c (w.sockfd c)).setStage c st).conn c' = w.conn c' :=
    fun c' hne => Function.update_of_ne hne _ _
  have hcl : ∀ c', ((w.closeFd c (w.sockfd c)).setStage c st).closes c' =
      w.closes c' + if c = c' then 1 else 0 := fun c' => w.closes_closeFd c c' _
  have hdead : ¬ Live ((w.closeFd c (w.sockfd c)).setStage c st) c := by
    rintro (hl | hl)
    · rw [hself, hst] at hl
      cases hl
    · exact hl (hO.noSlot_of_stage hnd)
  have hiff : ∀ c', c' ≠ c → (Live ((w.closeFd c (w.sockfd c)).setStage c st) c' ↔ Live w c') := by
    intro c' hne
    rw [Live, hother c' hne]
    rfl
  refine ⟨fun c' => ?_, fun c' hc' => ?_, fun c' hc' => ?_, fun c' hc' => ?_, fun c' hc' hl => ?_,
    fun e he => ?_⟩
  · by_cases hne : c' = c
    · rw [hne, hself]
      exact h.stays c
    · rw [hother c' hne]
      exact h.stays c'
  · have hne : c' ≠ c := by
      rintro rfl
      exact hdead hc'
    have hown' := h.own c' ((hiff c' hne).mp hc')
    have hsock : ((w.closeFd c (w.sockfd c)).setStage c st).sockfd c' = w.sockfd c' := by
      rw [World.sockfd, hother c' hne, World.sockfd]
    rw [hsock]
    show Function.update w.fds (w.sockfd c) none (w.sockfd c') = _
    rw [Function.update_of_ne]
    · exact hown'
    · intro e
      rw [e, hown] at hown'
      cases hown'
      exact hne rfl
  · have hne : c' ≠ c := by
      rintro rfl
      exact hdead hc'
    rw [hcl, if_neg (Ne.symm hne), h.unclosed c' ((hiff c' hne).mp hc')]
  · have hlt := hO.lt_conns hnd
    have hle : w.conns ≤ c' := hc'
    rw [hcl, if_neg (Nat.lt_of_lt_of_le hlt hle).ne, h.unborn c' hle]
  · by_cases hne : c' = c
    · rw [hcl, hne, if_pos rfl, h.unclosed c hlive]
    · rw [hcl, if_neg (Ne.symm hne), h.ended c' hc' (fun hl' => hl ((hiff c' hne).mpr hl'))]
  · change e ∈ w.closed ++ [⟨c, w.fds (w.sockfd c)⟩] at he
    rw [List.mem_append, List.mem_singleton] at he
    rcases he with he | rfl
    · exact h.hit e he
    · exact hown

/-- **A locked section that ends some of the active peers** closes each of their
connections, and these are no longer alive. -/
theorem endPeers (h : Once w) (hO : Owned w) {r : Reply} {L : List Peer}
    (hcalls : r.calls = L.flatMap endCalls)
    (hL : ∀ p ∈ L, ∃ i, (w.app.peers i).active = true ∧ w.app.peers i = p)
    (hnd : (L.map Peer.threadId).Nodup)
    (hslots : ∀ c, ({ w with app := r.app } : World).NoSlot c ↔
      w.NoSlot c ∨ c ∈ L.map Peer.threadId) : Once (w.doReply r) := by
  have hw := w.doReply_eq hcalls
  have hconn := w.doReply_conn hcalls
  have hcl : ∀ c, (w.doReply r).closes c = w.closes c + (L.map Peer.threadId).count c := by
    intro c
    rw [hw, World.closes_foldl_endPeer]
    rfl
  have hslot : ∀ p ∈ L, w.fds p.sockfd = some (.conn p.threadId) ∧
      (w.conn p.threadId).stage = .done ∧ p.threadId < w.conns ∧ ¬ w.NoSlot p.threadId := by
    intro p hp
    obtain ⟨i, hi, rfl⟩ := hL p hp
    have hr := hO.slot i hi
    refine ⟨hr.fds_eq, hr.stage_eq, ?_, fun hn => hn i hi rfl⟩
    by_contra hge
    have := hr.id_eq
    rw [(hO.unborn _ (not_lt.mp hge)).2] at this
    cases this
  have hthread : ∀ c, c ∈ L.map Peer.threadId →
      (w.conn c).stage = .done ∧ c < w.conns ∧ Live w c := by
    intro c hc
    obtain ⟨p, hp, rfl⟩ := List.mem_map.mp hc
    obtain ⟨-, h1, h2, h3⟩ := hslot p hp
    exact ⟨h1, h2, Or.inr h3⟩
  have hNo : ∀ c, (w.doReply r).NoSlot c ↔ w.NoSlot c ∨ c ∈ L.map Peer.threadId := by
    intro c
    rw [← hslots, hw, World.NoSlot, World.foldl_endPeer_app]
    rfl
  have hlive : ∀ c, Live (w.doReply r) c ↔ Live w c ∧ c ∉ L.map Peer.threadId := by
    intro c
    rw [Live, Live, hconn, hNo]
    constructor
    · rintro (hl | hl)
      · refine ⟨Or.inl hl, fun hc => ?_⟩
        rw [(hthread c hc).1] at hl
        cases hl
      · rw [not_or] at hl
        exact ⟨Or.inr hl.1, hl.2⟩
    · rintro ⟨hl | hl, hc⟩
      · exact Or.inl hl
      · exact Or.inr (fun hn => hn.elim hl hc)
  refine ⟨fun c => ?_, fun c hc => ?_, fun c hc => ?_, fun c hc => ?_, fun c hc hl => ?_, ?_⟩
  · rw [hconn]
    exact h.stays c
  · obtain ⟨hc, hn⟩ := (hlive c).mp hc
    have hown := h.own c hc
    rw [World.sockfd, hconn]
    show (w.doReply r).fds (w.sockfd c) = _
    rw [hw, World.foldl_endPeer_fds]
    · exact hown
    · intro p hp e
      have := (hslot p hp).1
      rw [e, hown] at this
      cases this
      exact hn (List.mem_map_of_mem hp)
  · obtain ⟨hc, hn⟩ := (hlive c).mp hc
    rw [hcl, h.unclosed c hc, List.count_eq_zero_of_not_mem hn]
  · have hc' : w.conns ≤ c := by
      rw [hw, World.foldl_endPeer_conns] at hc
      exact hc
    have hn : c ∉ L.map Peer.threadId := fun hm => absurd (hthread c hm).2.1 (not_lt.mpr hc')
    rw [hcl, h.unborn c hc', List.count_eq_zero_of_not_mem hn]
  · rw [hw, World.foldl_endPeer_conns] at hc
    rw [hcl]
    by_cases hm : c ∈ L.map Peer.threadId
    · rw [h.unclosed c (hthread c hm).2.2, hnd.count, if_pos hm]
    · rw [List.count_eq_zero_of_not_mem hm]
      exact h.ended c hc (fun hl' => hl ((hlive c).mpr ⟨hl', hm⟩))
  · rw [hw]
    exact World.hit_foldl_endPeer L _ (fun p hp => (hslot p hp).1) hnd h.hit

end Once

theorem Owned.nodup_activePeers {w : World} (h : Owned w) :
    (w.app.activePeers.map Peer.threadId).Nodup := by
  rw [ChatApp.activePeers, List.map_map]
  refine List.Nodup.map_on ?_ ((List.nodup_finRange maxPeers).filter _)
  intro i hi j hj hij
  exact h.slot_inj (List.mem_filter.mp hi).2 (List.mem_filter.mp hj).2 hij

/-- A free slot is filled: the connection that gets it has a slot now. -/
theorem World.noSlot_fill {w : World} (app : ChatApp) {k : Fin maxPeers} {p : Peer}
    (hk : (w.app.peers k).active = false) (hp : p.active = true)
    (happ : app.peers = (w.app.setPeer k p).peers) (c : ConnId) :
    ({ w with app := app } : World).NoSlot c ↔ w.NoSlot c ∧ p.threadId ≠ c := by
  have hpeers : ∀ i, app.peers i = if i = k then p else w.app.peers i := by
    intro i
    rw [happ, ChatApp.setPeer_peers]
  constructor
  · intro h
    refine ⟨fun i hi => ?_, ?_⟩
    · have hik : i ≠ k := by
        rintro rfl
        rw [hk] at hi
        cases hi
      have := h i
      simp only [hpeers, if_neg hik] at this
      exact this hi
    · have := h k
      simp only [hpeers, if_true] at this
      exact this hp
  · rintro ⟨h, hne⟩ i hi
    simp only [hpeers] at hi ⊢
    split at hi
    · rw [if_pos ‹_›]
      exact hne
    · rw [if_neg ‹_›]
      exact h i hi

/-- An active slot is cleared: its connection has none now. -/
theorem Owned.noSlot_clear {w : World} (h : Owned w) {k : Fin maxPeers}
    (hk : (w.app.peers k).active = true) (c : ConnId) :
    ({ w with app := w.app.setPeer k (w.app.peers k).clear } : World).NoSlot c ↔
      w.NoSlot c ∨ c = (w.app.peers k).threadId := by
  constructor
  · intro hn
    by_contra hc
    rw [not_or, World.NoSlot] at hc
    push Not at hc
    obtain ⟨⟨i, hi, hic⟩, hne⟩ := hc
    have hik : i ≠ k := by
      rintro rfl
      exact hne hic.symm
    have := hn i
    simp only [ChatApp.setPeer_peers, if_neg hik] at this
    exact this hi hic
  · rintro hn i hi hic
    simp only [ChatApp.setPeer_peers] at hi hic
    split at hi
    · simp at hi
    · rename_i hik
      rw [if_neg hik] at hic
      rcases hn with hn | hn
      · exact hn i hi hic
      · exact hik (h.slot_inj hi hk (hic.trans hn))

namespace Once

theorem register {w : World} (h : Once w) (hO : Owned w) {c : ConnId}
    (hs : (w.conn c).stage = .adding) : Once (w.register c) := by
  obtain he | ⟨k, app, hk, -, -, hpeers, he⟩ := Owned.register_cases hO.ids c
  · rw [he]
    exact h.setConn rfl (h.stays c) (by rw [hs]; rfl)
  · rw [he]
    refine h.congr rfl rfl rfl (World.setConn_sockfd rfl) (fun c' => ?_) (fun c' => ?_)
    · rw [World.setConn_conn]
      split
      · exact h.stays c
      · exact h.stays c'
    · have hno := World.noSlot_fill app hk rfl hpeers c'
      rw [Live, World.setConn_conn]
      by_cases hc : c' = c
      · -- alive as the maker's before, and as the slot's after
        subst hc
        constructor
        · intro _
          exact Or.inl (by rw [hs]; rfl)
        · intro _
          exact Or.inr (fun hn => (hno.mp hn).2 rfl)
      · rw [if_neg hc]
        exact or_congr Iff.rfl (not_congr (hno.trans (and_iff_left (Ne.symm hc))))

theorem disconnectPeer {w : World} (h : Once w) (hO : Owned w) (id : Int) :
    Once (w.doReply (chatappDisconnectPeer w.app id)) := by
  obtain ⟨-, happ, hcalls, -⟩ | ⟨k, hk, -, -, happ, hcalls⟩ := chatappDisconnectPeer_cases w.app id
  · rw [World.doReply_nil _ hcalls]
    exact h.withApp (by rw [happ])
  · refine h.endPeers hO (L := [w.app.peers k]) (by rw [hcalls]; simp) ?_ (by simp) ?_
    · intro p hp
      rw [List.mem_singleton] at hp
      exact ⟨k, hk, hp.symm⟩
    · intro c
      rw [happ, hO.noSlot_clear hk]
      simp

theorem closeAll {w : World} (h : Once w) (hO : Owned w) :
    Once (w.doReply (Chat.closeAll w.app)) := by
  refine h.endPeers hO (closeAll_calls w.app) (fun p hp => ChatApp.mem_activePeers.mp hp)
    hO.nodup_activePeers ?_
  intro c
  constructor
  · intro _
    by_contra hc
    rw [not_or, World.NoSlot] at hc
    push Not at hc
    obtain ⟨⟨i, hi, hic⟩, hm⟩ := hc
    exact hm (List.mem_map.mpr ⟨_, ChatApp.mem_activePeers.mpr ⟨i, hi, rfl⟩, hic⟩)
  · intro _ i hi
    simp at hi

/-- A step of a run on which the handlers stay is in order. -/
theorem inOrder {s : State} {a : Action} (h : Once s.toWorld) (hO : Owned s.toWorld)
    (he : Enabled s a) : InOrder s a := by
  have hgone : ∀ c, (s.conn c).handler.inTime = false → (s.conn c).handler = .absent := by
    intro c h1
    have := h.stays c
    cases hh : (s.conn c).handler <;> rw [hh] at this h1 <;>
      simp [HandlerPc.stays, HandlerPc.inTime] at this h1
  constructor
  · intro hst
    cases a with
    | refuseClose t c =>
      obtain ⟨c', hne, hf⟩ := World.reused_iff.mp hst
      have hown := h.own c (Or.inl (by rw [he.2]; rfl))
      rw [hown] at hf
      cases hf
      exact hne rfl
    | loopClose c =>
      have hpc : (s.conn c).handler = .closing := he
      have := hgone c (by rw [hpc]; rfl)
      rw [hpc] at this
      cases this
    | cleanupClose c =>
      have hstays := h.stays c
      rcases he with he | he <;> rw [he] at hstays <;> cases hstays
    | _ => exact hst
  · intro hla
    cases a with
    | addPeer t c => exact (hO.adding c he.2).1 (hgone c hla)
    | _ => exact hla

end Once

/-- **A step on which no handler leaves its loop keeps every count.** -/
theorem once_effect {s : State} {a : Action} (hs : Safe s) (h : Once s.toWorld) (he : Enabled s a)
    (hstay : Stays s a) : Once (effect s a).toWorld := by
  have hO := hs.owned
  cases a with
  | socket ip port fd =>
    cases fd with
    | none => exact h
    | some fd => exact h.newConn he.2.2 rfl
  | accept ip port fd =>
    cases fd with
    | none => exact h
    | some fd => exact h.newConn he.2.2 rfl
  | dial c ok =>
    have hst := he.2
    refine h.setConn rfl (h.stays c) ?_
    rw [hst]
    cases ok <;> rfl
  | spawn t c ok =>
    have hst := he.2
    cases ok with
    | false => exact h.setConn rfl (h.stays c) (by rw [hst]; rfl)
    | true => exact h.setConn rfl rfl (by rw [hst]; rfl)
  | failClose t c =>
    show Once (State.leave _ t).toWorld
    rw [State.leave_toWorld]
    exact h.closeFd hO (by rw [he.2]; rfl) rfl
  | addPeer t c =>
    have hreg := h.register hO he.2
    show Once (ite _ _ _ : State).toWorld
    split
    · exact hreg
    · rw [State.leave_toWorld]
      exact hreg
  | refuseClose t c => exact h.closeFd hO (by rw [he.2]; rfl) rfl
  | refuseCancel t c =>
    have hst := he.2
    show Once (State.leave _ t).toWorld
    rw [State.leave_toWorld]
    have h' : Once (s.pthreadCancel c) := h.setConn rfl (h.stays c) rfl
    refine h'.setConn rfl (h'.stays c) ?_
    rw [World.pthreadCancel, World.setConn_self, hst]
    rfl
  | sendMessage id msg =>
    show Once (s.doReply (chatappSendMessage s.app id msg))
    rw [doReply_sendMessage]
    exact h
  | disconnectPeer id => exact h.disconnectPeer hO id
  | stop => exact h.withApp rfl
  | closeListener =>
    have hl := hs.listens (by rw [show s.main = .stopping from he]; rfl)
    refine ⟨h.stays, fun c hc => ?_, h.unclosed, h.unborn, h.ended, h.hit⟩
    show Function.update s.fds s.app.listenerSocket none (s.sockfd c) = _
    rw [Function.update_of_ne (hl.2 c)]
    exact h.own c hc
  | closeAll => exact h.closeAll hO
  | recv c gone =>
    cases gone with
    | true => exact absurd rfl hstay
    | false => exact h.setConn rfl rfl rfl
  | display c => exact h.setConn rfl rfl rfl
  | announce c =>
    have := h.stays c
    rw [show (s.conn c).handler = .leaving from he] at this
    cases this
  | deregister c =>
    have := h.stays c
    rw [show (s.conn c).handler = .locking from he] at this
    cases this
  | loopClose c =>
    have := h.stays c
    rw [show (s.conn c).handler = .closing from he] at this
    cases this
  | cleanupClose c =>
    have := h.stays c
    rcases he with he | he <;> rw [he] at this <;> cases this
  | cancelled c => exact absurd trivial hstay
  | listPeers | join | destroy | check | callAccept => exact h

theorem once_initial (port : Int) (fd : Nat) (inherited : Int → Bool) :
    Once (initial port fd inherited).toWorld := by
  have hdead : ∀ c, ¬ Live (initial port fd inherited).toWorld c := by
    rintro c (hl | hl)
    · cases hl
    · exact hl (fun i hi => by cases hi)
  refine ⟨fun _ => rfl, fun c hc => absurd hc (hdead c), fun _ _ => rfl, fun _ _ => rfl,
    fun c hc => absurd hc (Nat.not_lt_zero c), fun e he => ?_⟩
  cases he

/-- **When a connection is closed once.**  As long as no handler leaves its loop, every
connection is closed once, when it is over; one whose handler has ended has been
closed at least twice, on every run. -/
theorem closed_once (port : Int) (fd : Nat) (inherited : Int → Bool) (s : State) :
    (Reachable step Stays (initial port fd inherited) s → ClosedOnce s.toWorld) ∧
    (Reachable step Any (initial port fd inherited) s →
      ∀ c, (s.conn c).handler = .ended → 2 ≤ s.closes c) := by
  refine ⟨fun hr => ?_, fun hr c hc => closed_twice hr hc⟩
  have h : Safe s ∧ Once s.toWorld := by
    refine hr.invariant (P := fun s => Safe s ∧ Once s.toWorld)
      ⟨safe_initial port fd inherited, once_initial port fd inherited⟩ ?_
    rintro t a u ⟨hs, ht⟩ hstay hn
    obtain ⟨he, hu⟩ := step_eq_some.mp hn
    refine ⟨safe_step hs (ht.inOrder hs.owned he) hn, ?_⟩
    rw [← hu]
    exact once_effect hs ht he hstay
  exact h.2.closedOnce

/-- The remote closes connection 0, and its handler runs to its end. -/
def remoteEnds : List Action :=
  acceptPeer 0 4 ++ [.addPeer .listener 0] ++ remoteCloses 0 ++ [.deregister 0, .loopClose 0,
    .cleanupClose 0]

/-- One peer that is terminated while its handler is at `recv`, and the run above. -/
theorem closed_once_one :
    (∃ s, exec step (initial 4000 3 stdio)
        (acceptPeer 0 4 ++ [.addPeer .listener 0, .disconnectPeer 1]) = some s ∧
      Over s.toWorld 0 ∧ ClosedOnce s.toWorld) ∧
    ∃ s, exec step (initial 4000 3 stdio) remoteEnds = some s ∧ 2 ≤ s.closes 0 := by
  refine ⟨⟨_, rfl, ⟨Nat.zero_lt_one, rfl, by decide⟩, (closed_once 4000 3 stdio _).1 ?_⟩,
    ⟨_, rfl, (closed_once 4000 3 stdio _).2 ?_ 0 rfl⟩⟩
  · exact ⟨acceptPeer 0 4 ++ [.addPeer .listener 0, .disconnectPeer 1], exec_guarded rfl⟩
  · exact ⟨remoteEnds, exec_run rfl⟩

/-- **A connection closed twice**, by the loop and then by `peer_cleanup`, when the
number is no longer open. -/
theorem closed_two_times :
    ∃ s, Run step Any (initial 4000 3 stdio) remoteEnds s ∧ Over s.toWorld 0 ∧ s.closes 0 = 2 ∧
      s.closed.map Closing.hit = [some (.conn 0), none] :=
  ⟨_, exec_run rfl, ⟨Nat.zero_lt_one, rfl, by decide⟩, rfl, by decide +kernel⟩

end EmbeddedLinux.Chat
