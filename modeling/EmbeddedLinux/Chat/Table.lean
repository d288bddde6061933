import EmbeddedLinux.Chat.Ids
import EmbeddedLinux.Lib.IdTable
import Mathlib.Data.Fintype.Card
import Mathlib.Data.Fintype.Fin

/-!
# The slot array as a bounded map

What the table is for: a finite map from peer IDs to entries, with at most
`MAX_PEERS` of them, whose IDs come from a counter below `INT_MAX` (`PeerTable`).
`Refines` relates the array to it: the entries are the active slots, read through
`Peer.entry`; what a dead slot still holds does not matter.

`Meets` says for each locked section what it must do on the map and what it must
answer, and `refines_reply` that the section on the array does exactly that.  The
two sides disagree in shape only, since the array has holes: a full array is a
full map because active slots have distinct IDs (`Refines.card_keys`).
-/

namespace EmbeddedLinux.Chat

open CString Transition

/-- What the map holds for a peer. -/
structure Entry where
  sockfd : Int
  ip : List UInt8
  port : Int
  thread : Tid

abbrev PeerTable := IdTable Entry maxPeers intMax

/-- The map `chatapp_setup` starts with. -/
def PeerTable.initial : PeerTable := IdTable.empty maxPeers 1 (by decide)

def Peer.entry (p : Peer) : Entry :=
  { sockfd := p.sockfd, ip := cstr (List.ofFn p.ip), port := p.port, thread := p.threadId }

/-- The entries of the map are the active slots. -/
structure Refines (app : ChatApp) (t : PeerTable) : Prop where
  ids : IdsOk app
  next_eq : t.next = app.nextPeerId
  lookup_iff : ∀ id e, t.lookup id = some e ↔
    ∃ i, (app.peers i).active = true ∧ (app.peers i).id = id ∧ (app.peers i).entry = e

/-- The line `chatapp_list_peers` prints for an entry. -/
def entryLine (row : Int × Entry) : List UInt8 :=
  decimal row.1 ++ text "\t" ++ row.2.ip ++ text "\t" ++ decimal row.2.port ++ text "\n"

/-- What a locked section must do on the map, and what it must answer. -/
def Meets (app : ChatApp) (t : PeerTable) (r : Reply) (t' : PeerTable) : Op → Prop
  | .addPeer sockfd ip port tid =>
    if h : t.CanAdd then
      r.ret = t.next ∧ t' = t.add ⟨sockfd, (cstr ip).take 15, port, tid⟩ h
    else r.ret = -1 ∧ r.app = app ∧ t' = t
  | .listPeers => r.app = app ∧ t' = t ∧ ∃ rows : List (Int × Entry), rows.Nodup ∧
      (∀ id e, (id, e) ∈ rows ↔ t.lookup id = some e) ∧
      r.out = text "ID\tIP Address\tPort\n" ++ rows.flatMap entryLine
  | .sendMessage id msg => r.app = app ∧ t' = t ∧
      match t.lookup id with
      | some e => r.ret = 0 ∧ ∃ p : Peer, p.entry = e ∧ r.calls = [.send p (cstr msg)]
      | none => r.ret = -1 ∧ r.calls = []
  | .disconnectPeer id =>
      match t.lookup id with
      | some e => r.ret = 0 ∧ t' = t.remove id ∧
          ∃ p : Peer, p.entry = e ∧ r.calls = endCalls p
      | none => r.ret = -1 ∧ r.app = app ∧ t' = t
  | .deregister sockfd =>
      (r.app = app ∧ t' = t ∧ ∀ id e, t.lookup id = some e → e.sockfd ≠ sockfd) ∨
      ∃ id e, t.lookup id = some e ∧ e.sockfd = sockfd ∧ t' = t.remove id
  | .stop => t' = t
  | .closeAll => t' = t.clear

/-! ### What the relation gives -/

theorem refines_setup (port fd : Int) : Refines (chatappSetup port fd) PeerTable.initial := by
  refine ⟨idsOk_setup port fd, rfl, ?_⟩
  intro id e
  constructor
  · intro h
    rw [PeerTable.initial, IdTable.lookup_empty] at h
    cases h
  · rintro ⟨i, h, -⟩
    cases h

theorem Refines.lookup_slot {app : ChatApp} {t : PeerTable} (h : Refines app t)
    {i : Fin maxPeers} (hi : (app.peers i).active = true) :
    t.lookup (app.peers i).id = some (app.peers i).entry :=
  (h.lookup_iff _ _).mpr ⟨i, hi, rfl, rfl⟩

theorem Refines.lookup_none {app : ChatApp} {t : PeerTable} (h : Refines app t) {id : Int}
    (hid : ∀ i, (app.peers i).active = true → (app.peers i).id ≠ id) : t.lookup id = none := by
  cases hl : t.lookup id with
  | none => rfl
  | some e =>
    obtain ⟨i, hi, hid', -⟩ := (h.lookup_iff id e).mp hl
    exact absurd hid' (hid i hi)

/-- **There are as many entries as active slots.** -/
theorem Refines.card_keys {app : ChatApp} {t : PeerTable} (h : Refines app t) :
    t.entries.keys.card = (Finset.univ.filter (fun i => (app.peers i).active = true)).card := by
  have hkeys : t.entries.keys =
      (Finset.univ.filter (fun i => (app.peers i).active = true)).image
        (fun i => (app.peers i).id) := by
    ext id
    rw [Finmap.mem_keys, Finmap.mem_iff, Finset.mem_image]
    constructor
    · rintro ⟨e, he⟩
      obtain ⟨i, hi, hid, -⟩ := (h.lookup_iff id e).mp he
      exact ⟨i, by simpa using hi, hid⟩
    · rintro ⟨i, hi, rfl⟩
      exact ⟨_, h.lookup_slot (by simpa using hi)⟩
  rw [hkeys, Finset.card_image_of_injOn]
  intro i hi j hj hij
  exact h.ids.distinct i j (by simpa using hi) (by simpa using hj) hij

/-- The map has room exactly when the array has a free slot. -/
theorem Refines.card_lt_iff {app : ChatApp} {t : PeerTable} (h : Refines app t) :
    t.entries.keys.card < maxPeers ↔ ∃ i, (app.peers i).active = false := by
  rw [h.card_keys]
  constructor
  · intro hlt
    by_contra hn
    push Not at hn
    have hall : Finset.univ.filter (fun i => (app.peers i).active = true) = Finset.univ := by
      rw [Finset.filter_eq_self]
      intro i _
      simpa using hn i
    rw [hall, Finset.card_univ, Fintype.card_fin] at hlt
    omega
  · rintro ⟨i, hi⟩
    have hss : Finset.univ.filter (fun i => (app.peers i).active = true) ⊂ Finset.univ := by
      rw [Finset.ssubset_univ_iff]
      intro e
      have := Finset.mem_univ i
      rw [← e] at this
      simp [hi] at this
    have := Finset.card_lt_card hss
    rwa [Finset.card_univ, Fintype.card_fin] at this

theorem Refines.canAdd_iff {app : ChatApp} {t : PeerTable} (h : Refines app t) :
    t.CanAdd ↔ (∃ i, (app.peers i).active = false) ∧ app.nextPeerId < intMax := by
  rw [IdTable.CanAdd, h.card_lt_iff, h.next_eq]

/-! ### One section -/

/-- Clearing an active slot removes its entry. -/
theorem Refines.clear_slot {app : ChatApp} {t : PeerTable} (h : Refines app t)
    {i : Fin maxPeers} (hi : (app.peers i).active = true)
    (hids : IdsOk (app.setPeer i (app.peers i).clear)) :
    Refines (app.setPeer i (app.peers i).clear) (t.remove (app.peers i).id) := by
  refine ⟨hids, h.next_eq, ?_⟩
  intro id e
  rw [IdTable.lookup_remove]
  constructor
  · intro hl
    split at hl
    · cases hl
    · rename_i hne
      obtain ⟨j, hj, hid, he⟩ := (h.lookup_iff id e).mp hl
      have hji : j ≠ i := by
        rintro rfl
        exact hne hid.symm
      exact ⟨j, by rw [ChatApp.setPeer_peers, if_neg hji]; exact ⟨hj, hid, he⟩⟩
  · rintro ⟨j, hj, hid, he⟩
    rw [ChatApp.setPeer_peers] at hj hid he
    by_cases hji : j = i
    · rw [if_pos hji] at hj
      simp at hj
    · rw [if_neg hji] at hj hid he
      have hne : id ≠ (app.peers i).id := by
        rintro rfl
        exact hji (h.ids.distinct j i hj hi hid)
      rw [if_neg hne]
      exact (h.lookup_iff id e).mpr ⟨j, hj, hid, he⟩

theorem entry_peerSet (p : Peer) (id sockfd : Int) (ip : List UInt8) (port : Int) (tid : Tid) :
    (peerSet p id sockfd ip port tid).entry = ⟨sockfd, (cstr ip).take 15, port, tid⟩ := by
  rw [Peer.entry, peerSet]
  simp only [Entry.mk.injEq, true_and, and_true]
  exact cstr_strncpy 15 ip

theorem Refines.addPeer {app : ChatApp} {t : PeerTable} (h : Refines app t) (sockfd : Int)
    (ip : List UInt8) (port : Int) (tid : Tid) :
    ∃ t', Meets app t (chatappAddPeer app sockfd ip port tid) t' (.addPeer sockfd ip port tid) ∧
      Refines (chatappAddPeer app sockfd ip port tid).app t' := by
  obtain ⟨hret, happ, hfull⟩ | ⟨k, hlim, hk, -, hret, happ⟩ :=
    chatappAddPeer_cases app sockfd ip port tid
  · refine ⟨t, ?_, by rw [happ]; exact h⟩
    have hno : ¬ t.CanAdd := by
      rw [h.canAdd_iff]
      rintro ⟨⟨i, hi⟩, hlt⟩
      rcases hfull with hle | hall
      · omega
      · rw [hall i] at hi
        cases hi
    rw [Meets, dif_neg hno]
    exact ⟨hret, happ, rfl⟩
  · have hcan : t.CanAdd := h.canAdd_iff.mpr ⟨⟨k, hk⟩, hlim⟩
    refine ⟨t.add ⟨sockfd, (cstr ip).take 15, port, tid⟩ hcan, ?_, ?_⟩
    · rw [Meets, dif_pos hcan]
      exact ⟨by rw [hret, h.next_eq], rfl⟩
    · have hids := idsOk_reply h.ids (.addPeer sockfd ip port tid)
      rw [reply, happ] at hids
      rw [happ]
      refine ⟨hids, by show t.next + 1 = _; rw [h.next_eq], ?_⟩
      intro id e
      rw [IdTable.lookup_add, h.next_eq]
      have hslot : ∀ j, ({ app.setPeer k (peerSet (app.peers k) app.nextPeerId sockfd ip port tid)
          with nextPeerId := app.nextPeerId + 1 } : ChatApp).peers j =
          if j = k then peerSet (app.peers k) app.nextPeerId sockfd ip port tid
          else app.peers j := fun j => ChatApp.setPeer_peers _ _ _ _
      constructor
      · intro hl
        split at hl
        · rename_i hid
          rw [Option.some.injEq] at hl
          refine ⟨k, ?_⟩
          rw [hslot, if_pos rfl, entry_peerSet]
          exact ⟨rfl, hid.symm, hl⟩
        · obtain ⟨j, hj, hid, he⟩ := (h.lookup_iff id e).mp hl
          have hjk : j ≠ k := by
            rintro rfl
            rw [hk] at hj
            cases hj
          exact ⟨j, by rw [hslot, if_neg hjk]; exact ⟨hj, hid, he⟩⟩
      · rintro ⟨j, hj, hid, he⟩
        rw [hslot] at hj hid he
        by_cases hjk : j = k
        · rw [if_pos hjk] at hid he
          rw [if_pos (show id = app.nextPeerId from hid.symm), ← he, entry_peerSet]
        · rw [if_neg hjk] at hj hid he
          have hlt := (h.ids.range j hj).2
          rw [if_neg (by omega)]
          exact (h.lookup_iff id e).mpr ⟨j, hj, hid, he⟩

/-- The rows of the listing: one for each active slot, in the order of the slots. -/
def listRows (app : ChatApp) : List (Int × Entry) :=
  ((List.finRange maxPeers).filter (fun i => (app.peers i).active)).map
    (fun i => ((app.peers i).id, (app.peers i).entry))

theorem chatappListPeers_out (app : ChatApp) : (chatappListPeers app).out =
    text "ID\tIP Address\tPort\n" ++ (listRows app).flatMap entryLine := by
  rw [chatappListPeers, flatMap_active, listRows, List.flatMap_map]
  rfl

theorem Refines.listRows {app : ChatApp} {t : PeerTable} (h : Refines app t) :
    (listRows app).Nodup ∧ ∀ id e, (id, e) ∈ listRows app ↔ t.lookup id = some e := by
  constructor
  · refine List.Nodup.map_on ?_ ((List.nodup_finRange maxPeers).filter _)
    intro i hi j hj hij
    rw [List.mem_filter] at hi hj
    exact h.ids.distinct i j hi.2 hj.2 (Prod.mk.inj hij).1
  · intro id e
    rw [h.lookup_iff, Chat.listRows, List.mem_map]
    constructor
    · rintro ⟨i, hi, he⟩
      rw [List.mem_filter] at hi
      obtain ⟨hid, he⟩ := Prod.mk.inj he
      exact ⟨i, hi.2, hid, he⟩
    · rintro ⟨i, hi, hid, he⟩
      exact ⟨i, List.mem_filter.mpr ⟨List.mem_finRange i, hi⟩, by rw [hid, he]⟩

/-- **Every section on the array does on the map what it must.** -/
theorem refines_reply {app : ChatApp} {t : PeerTable} (h : Refines app t) (op : Op) :
    ∃ t', Meets app t (reply app op) t' op ∧ Refines (reply app op).app t' := by
  have hids := idsOk_reply h.ids op
  cases op with
  | addPeer sockfd ip port tid => exact h.addPeer sockfd ip port tid
  | listPeers =>
    obtain ⟨hnd, hmem⟩ := h.listRows
    exact ⟨t, ⟨rfl, rfl, listRows app, hnd, hmem, chatappListPeers_out app⟩, h⟩
  | sendMessage id msg =>
    refine ⟨t, ⟨chatappSendMessage_app app id msg, rfl, ?_⟩, ?_⟩
    · obtain ⟨hret, hcalls, hno⟩ | ⟨i, hi, rfl, hret, hcalls⟩ :=
        chatappSendMessage_cases app id msg
      · rw [h.lookup_none hno]
        exact ⟨hret, hcalls⟩
      · rw [h.lookup_slot hi]
        exact ⟨hret, app.peers i, rfl, hcalls⟩
    · rw [reply, chatappSendMessage_app]
      exact h
  | disconnectPeer id =>
    obtain ⟨hret, happ, -, hno⟩ | ⟨i, hi, rfl, hret, happ, hcalls⟩ :=
      chatappDisconnectPeer_cases app id
    · refine ⟨t, ?_, by rw [reply, happ]; exact h⟩
      rw [Meets, h.lookup_none hno]
      exact ⟨hret, happ, rfl⟩
    · rw [reply, happ] at hids
      refine ⟨t.remove (app.peers i).id, ?_, by rw [reply, happ]; exact h.clear_slot hi hids⟩
      rw [Meets, h.lookup_slot hi]
      exact ⟨hret, rfl, app.peers i, rfl, hcalls⟩
  | deregister sockfd =>
    obtain ⟨happ, hno⟩ | ⟨i, hi, rfl, happ⟩ := deregister_cases app sockfd
    · refine ⟨t, Or.inl ⟨happ, rfl, ?_⟩, by rw [reply, happ]; exact h⟩
      intro id e hl
      obtain ⟨i, hi, -, rfl⟩ := (h.lookup_iff id e).mp hl
      exact hno i hi
    · rw [reply, happ] at hids
      exact ⟨t.remove (app.peers i).id, Or.inr ⟨_, _, h.lookup_slot hi, rfl, rfl⟩,
        by rw [reply, happ]; exact h.clear_slot hi hids⟩
  | stop => exact ⟨t, rfl, hids, h.next_eq, h.lookup_iff⟩
  | closeAll =>
    refine ⟨t.clear, rfl, hids, h.next_eq, ?_⟩
    intro id e
    rw [IdTable.lookup_clear]
    constructor
    · intro hl
      cases hl
    · rintro ⟨i, hi, -⟩
      rw [reply, closeAll_active] at hi
      cases hi

/-! ### Whole runs -/

/-- A step of the map under a section that answers as it must. -/
def TableStep (t : PeerTable) (op : Op) (t' : PeerTable) : Prop :=
  ∃ app, Refines app t ∧ Meets app t (reply app op) t' op ∧ Refines (reply app op).app t'

theorem refines_next {app app' : ChatApp} {t : PeerTable} {op : Op} (h : Refines app t)
    (hn : next app op = some app') : ∃ t', TableStep t op t' ∧ Refines app' t' := by
  cases hn
  obtain ⟨t', hm, ht'⟩ := refines_reply h op
  exact ⟨t', ⟨app, h, hm, ht'⟩, ht'⟩

/-- **The slot array refines a bounded map**, over every sequence of locked
operations, and in the state it ends in every section does what it must. -/
theorem slots_refine_map {port fd : Int} {ops : List Op} {app : ChatApp}
    (hr : Run next Any (chatappSetup port fd) ops app) :
    ∃ t, Steps TableStep PeerTable.initial ops t ∧ Refines app t ∧
      t.entries.keys.card ≤ maxPeers ∧
      ∀ op, ∃ t', Meets app t (reply app op) t' op ∧ Refines (reply app op).app t' := by
  obtain ⟨t, hsteps, ht⟩ := hr.simulate (R := Refines) (refines_setup port fd)
    (fun _ _ _ _ h _ hn => refines_next h hn)
  exact ⟨t, hsteps, ht, t.card_le, refines_reply ht⟩

/-- Two peers, the first of them terminated: the map has the second one's entry. -/
theorem slots_refine_map_two :
    let ops : List Op := [.addPeer 4 [49] 80 0, .addPeer 5 [50] 81 1, .disconnectPeer 1]
    ∃ app t, exec next (chatappSetup 4000 3) ops = some app ∧ Refines app t ∧
      t.lookup 1 = none ∧ t.lookup 2 = some ⟨5, [50], 81, 1⟩ := by
  intro ops
  obtain ⟨t, -, ht, -⟩ :=
    slots_refine_map (exec_run (rfl : exec next (chatappSetup 4000 3) ops = some _))
  refine ⟨_, t, rfl, ht, ht.lookup_none ?_, (ht.lookup_iff _ _).mpr ⟨1, rfl, rfl, ?_⟩⟩
  · decide
  · rw [Entry.mk.injEq]
    exact ⟨rfl, by decide, rfl, rfl⟩

end EmbeddedLinux.Chat
