import EmbeddedLinux.Chat.App

/-!
# Peer IDs

`next_peer_id` only grows, and a registration is the only section that moves it,
by one, and only from below `INT_MAX`.  The ID a registration returns is its old
value, so every ID handed out lies below the counter from then on (`IdsOk.range`)
and the next one is larger than all of them.

An ID whose slot has been cleared is `Retired`: it lies below the counter and no
active slot has it, although a dead slot may still hold it.  No section brings
it back, since the only slot a section activates gets the counter's value.
-/

namespace EmbeddedLinux.Chat

open Transition

/-- The table's part of the invariant: the counter is in range, and the active
slots have distinct IDs below it. -/
structure IdsOk (app : ChatApp) : Prop where
  pos : 1 ≤ app.nextPeerId
  le_max : app.nextPeerId ≤ intMax
  range : ∀ i, (app.peers i).active = true →
    1 ≤ (app.peers i).id ∧ (app.peers i).id < app.nextPeerId
  distinct : ∀ i j, (app.peers i).active = true → (app.peers j).active = true →
    (app.peers i).id = (app.peers j).id → i = j

def HasActive (app : ChatApp) (id : Int) : Prop :=
  ∃ i, (app.peers i).active = true ∧ (app.peers i).id = id

/-- An ID that was handed out and is not in an active slot. -/
def Retired (app : ChatApp) (id : Int) : Prop := id < app.nextPeerId ∧ ¬ HasActive app id

theorem idsOk_setup (port fd : Int) : IdsOk (chatappSetup port fd) := by
  refine ⟨le_rfl, ?_, ?_, ?_⟩
  · show (1 : Int) ≤ intMax
    decide
  · intro i h
    cases h
  · intro i j h
    cases h

/-! ### One section -/

/-- The counter moves only in a registration that returns its old value. -/
theorem reply_nextPeerId (app : ChatApp) (op : Op) :
    (reply app op).app.nextPeerId = app.nextPeerId ∨
      (reply app op).app.nextPeerId = app.nextPeerId + 1 ∧ app.nextPeerId < intMax ∧
        (reply app op).ret = app.nextPeerId ∧
        ∃ sockfd ip port tid, op = .addPeer sockfd ip port tid := by
  cases op with
  | addPeer sockfd ip port tid =>
    obtain ⟨-, h', -⟩ | ⟨k, hlim, -, -, hret, h'⟩ := chatappAddPeer_cases app sockfd ip port tid
    · exact Or.inl (by rw [reply, h'])
    · refine Or.inr ⟨?_, hlim, hret, sockfd, ip, port, tid, rfl⟩
      rw [reply, h']
  | listPeers => exact Or.inl rfl
  | sendMessage id msg => exact Or.inl (by rw [reply, chatappSendMessage_app])
  | disconnectPeer id =>
    left
    obtain ⟨-, h', -⟩ | ⟨k, -, -, -, h', -⟩ := chatappDisconnectPeer_cases app id
    · rw [reply, h']
    · rw [reply, h', ChatApp.setPeer_nextPeerId]
  | deregister fd =>
    left
    obtain ⟨h', -⟩ | ⟨k, -, -, h'⟩ := deregister_cases app fd
    · rw [reply, h']
    · rw [reply, h', ChatApp.setPeer_nextPeerId]
  | stop => exact Or.inl rfl
  | closeAll => exact Or.inl rfl

theorem reply_nextPeerId_le (app : ChatApp) (op : Op) :
    app.nextPeerId ≤ (reply app op).app.nextPeerId := by
  rcases reply_nextPeerId app op with h | ⟨h, -⟩ <;> omega

/-- A slot that a registration has just taken holds the counter's old value, and
the counter has moved past it. -/
theorem reply_slot_id (app : ChatApp) (op : Op) (i : Fin maxPeers)
    (h : ((reply app op).app.peers i).active = true) :
    (app.peers i).active = true ∧ (reply app op).app.peers i = app.peers i ∨
      (app.peers i).active = false ∧ ((reply app op).app.peers i).id = app.nextPeerId ∧
        (reply app op).app.nextPeerId = app.nextPeerId + 1 := by
  obtain h' | ⟨sockfd, ip, port, tid, rfl, hi, hlim, hret, h'⟩ := reply_slot app op i h
  · rw [h'] at h ⊢
    exact Or.inl ⟨h, rfl⟩
  · refine Or.inr ⟨hi, by rw [h']; rfl, ?_⟩
    obtain ⟨-, e, -⟩ | ⟨k, -, -, -, -, e⟩ := chatappAddPeer_cases app sockfd ip port tid
    · rw [reply, e, hi] at h
      cases h
    · rw [reply, e]

theorem idsOk_reply {app : ChatApp} (hok : IdsOk app) (op : Op) : IdsOk (reply app op).app := by
  have hle := reply_nextPeerId_le app op
  refine ⟨le_trans hok.pos hle, ?_, ?_, ?_⟩
  · rcases reply_nextPeerId app op with h | ⟨h, hlt, -⟩
    · rw [h]; exact hok.le_max
    · omega
  · intro i hi
    obtain ⟨ha, h⟩ | ⟨-, h, hn⟩ := reply_slot_id app op i hi
    · rw [h]
      have := hok.range i ha
      omega
    · have := hok.pos
      omega
  · intro i j hi hj hid
    obtain ⟨hai, ei⟩ | ⟨hai, ei, -⟩ := reply_slot_id app op i hi <;>
      obtain ⟨haj, ej⟩ | ⟨haj, ej, -⟩ := reply_slot_id app op j hj
    · rw [ei, ej] at hid
      exact hok.distinct i j hai haj hid
    · -- an old ID is below the counter, a new one is the counter
      have := (hok.range i hai).2
      rw [ei, ej] at hid
      omega
    · have := (hok.range j haj).2
      rw [ei, ej] at hid
      omega
    · -- only one slot changes, and both were free before
      obtain h | ⟨sockfd, ip, port, tid, rfl, -⟩ := reply_slot app op i hi
      · rw [h, hai] at hi
        cases hi
      · obtain ⟨-, e, -⟩ | ⟨k, -, -, -, -, e⟩ := chatappAddPeer_cases app sockfd ip port tid
        · rw [reply, e, hai] at hi
          cases hi
        · have hk : ∀ m, (app.peers m).active = false →
              ((reply app (.addPeer sockfd ip port tid)).app.peers m).active = true → m = k := by
            intro m hm hm'
            by_contra hne
            rw [reply, e] at hm'
            simp only [ChatApp.setPeer, Function.update_of_ne hne] at hm'
            rw [hm] at hm'
            cases hm'
          rw [hk i hai hi, hk j haj hj]

theorem retired_reply {app : ChatApp} {id : Int} (h : Retired app id) (op : Op) :
    Retired (reply app op).app id := by
  refine ⟨lt_of_lt_of_le h.1 (reply_nextPeerId_le app op), ?_⟩
  rintro ⟨i, hi, hid⟩
  obtain ⟨ha, e⟩ | ⟨-, e, -⟩ := reply_slot_id app op i hi
  · rw [e] at hid
    exact h.2 ⟨i, ha, hid⟩
  · have := h.1
    omega

/-- With a retired ID both lookups fail. -/
theorem not_found_of_not_hasActive {app : ChatApp} {id : Int} (h : ¬ HasActive app id)
    (msg : List UInt8) :
    (chatappSendMessage app id msg).ret = -1 ∧ (chatappDisconnectPeer app id).ret = -1 := by
  constructor
  · obtain ⟨hret, -⟩ | ⟨i, ha, hid, -⟩ := chatappSendMessage_cases app id msg
    · exact hret
    · exact absurd ⟨i, ha, hid⟩ h
  · obtain ⟨hret, -⟩ | ⟨i, ha, hid, -⟩ := chatappDisconnectPeer_cases app id
    · exact hret
    · exact absurd ⟨i, ha, hid⟩ h

/-! ### Whole runs -/

/-- The ID a section hands out. -/
def addedId (app : ChatApp) (op : Op) : Option Int :=
  match op with
  | .addPeer sockfd ip port tid =>
    if (chatappAddPeer app sockfd ip port tid).ret = -1 then none
    else some (chatappAddPeer app sockfd ip port tid).ret
  | _ => none

/-- The IDs the registrations of a sequence return, in their order. -/
def addedIds : ChatApp → List Op → List Int
  | _, [] => []
  | app, op :: ops => (addedId app op).toList ++ addedIds (reply app op).app ops

theorem addedIds_snoc {app app' : ChatApp} {ops : List Op} (hr : Run next Any app ops app')
    (op : Op) : addedIds app (ops ++ [op]) = addedIds app ops ++ (addedId app' op).toList := by
  have h := run_exec hr
  clear hr
  induction ops generalizing app with
  | nil => cases h; simp [addedIds]
  | cons o ops ih =>
    rw [exec, next, Option.bind_some] at h
    rw [List.cons_append, addedIds, addedIds, ih h, List.append_assoc]

/-- A handed-out ID is the counter's old value, and the counter moves past it. -/
theorem addedId_eq {app : ChatApp} {op : Op} {id : Int} (h : addedId app op = some id) :
    id = app.nextPeerId ∧ (reply app op).app.nextPeerId = app.nextPeerId + 1 := by
  cases op with
  | addPeer sockfd ip port tid =>
    rw [addedId] at h
    split at h
    · cases h
    · rename_i hret
      obtain ⟨hm, -⟩ | ⟨k, -, -, -, hr, e⟩ := chatappAddPeer_cases app sockfd ip port tid
      · exact absurd hm hret
      · rw [Option.some.injEq] at h
        exact ⟨by rw [← h, hr], by rw [reply, e]⟩
  | _ => cases h

/-- What a run keeps: the table's invariant, and the IDs handed out so far are
increasing and below the counter. -/
theorem run_idsOk {app app' : ChatApp} {ops : List Op} (hok : IdsOk app)
    (hr : Run next Any app ops app') :
    IdsOk app' ∧ (addedIds app ops).Pairwise (· < ·) ∧
      ∀ id ∈ addedIds app ops, id < app'.nextPeerId := by
  induction hr with
  | nil => exact ⟨hok, List.Pairwise.nil, fun id hid => by cases hid⟩
  | @snoc t u ops op hr _ hn ih =>
    cases hn
    obtain ⟨hok', hsorted, hlt⟩ := ih
    have hle := reply_nextPeerId_le t op
    refine ⟨idsOk_reply hok' op, ?_, ?_⟩
    · rw [addedIds_snoc hr, List.pairwise_append]
      refine ⟨hsorted, ?_, ?_⟩
      · cases addedId t op with
        | none => exact List.Pairwise.nil
        | some id => exact List.pairwise_singleton _ _
      · intro a ha b hb
        rw [Option.mem_toList] at hb
        rw [(addedId_eq hb).1]
        exact hlt a ha
    · intro id hid
      rw [addedIds_snoc hr, List.mem_append, Option.mem_toList] at hid
      rcases hid with hid | hid
      · exact lt_of_lt_of_le (hlt id hid) hle
      · have := addedId_eq hid
        omega

theorem run_retired {app app' : ChatApp} {ops : List Op} {id : Int} (h : Retired app id)
    (hr : Run next Any app ops app') : Retired app' id := by
  refine hr.invariant (P := fun a => Retired a id) h ?_
  intro t op u ht _ hn
  cases hn
  exact retired_reply ht op

/-- A run from an active ID to a state without it leaves it retired. -/
theorem retired_of_run {app app' : ChatApp} {ops : List Op} {id : Int} (hok : IdsOk app)
    (hact : HasActive app id) (hr : Run next Any app ops app') (hgone : ¬ HasActive app' id) :
    Retired app' id := by
  refine ⟨?_, hgone⟩
  obtain ⟨i, hi, rfl⟩ := hact
  have hlt := (hok.range i hi).2
  refine hr.invariant (P := fun a => (app.peers i).id < a.nextPeerId) hlt ?_
  intro t op u ht _ hn
  cases hn
  exact lt_of_lt_of_le ht (reply_nextPeerId_le t op)

/-- **Peer IDs are unique for the whole run and never come back.** -/
theorem peer_ids_unique {port fd : Int} {ops : List Op} {app : ChatApp}
    (hr : Run next Any (chatappSetup port fd) ops app) :
    (addedIds (chatappSetup port fd) ops).Pairwise (· < ·) ∧
    (∀ i j, (app.peers i).active = true → (app.peers j).active = true →
      (app.peers i).id = (app.peers j).id → i = j) ∧
    (∀ i, (app.peers i).active = true →
      1 ≤ (app.peers i).id ∧ (app.peers i).id ≤ app.nextPeerId - 1) ∧
    app.nextPeerId ≤ intMax ∧
    (∀ op, (reply app op).app.nextPeerId ≠ app.nextPeerId → app.nextPeerId + 1 ≤ intMax) ∧
    ∀ id ops₁ app₁ ops₂ app₂, HasActive app id → Run next Any app ops₁ app₁ →
      ¬ HasActive app₁ id → Run next Any app₁ ops₂ app₂ → ∀ msg,
      (chatappSendMessage app₂ id msg).ret = -1 ∧ (chatappDisconnectPeer app₂ id).ret = -1 := by
  obtain ⟨hok, hsorted, -⟩ := run_idsOk (idsOk_setup port fd) hr
  refine ⟨hsorted, hok.distinct, ?_, hok.le_max, ?_, ?_⟩
  · intro i hi
    have := hok.range i hi
    omega
  · intro op hne
    obtain h | ⟨-, hlt, -⟩ := reply_nextPeerId app op
    · exact absurd h hne
    · omega
  · intro id ops₁ app₁ ops₂ app₂ hact hr₁ hgone hr₂ msg
    have hret := run_retired (retired_of_run hok hact hr₁ hgone) hr₂
    exact not_found_of_not_hasActive hret.2 msg

/-- ID 1 is handed out, terminated, and its slot taken again under ID 2. -/
theorem peer_ids_unique_reuse :
    let app₁ := (reply (chatappSetup 4000 3) (.addPeer 4 [49] 80 0)).app
    let app₂ := (reply app₁ (.disconnectPeer 1)).app
    let app₃ := (reply app₂ (.addPeer 4 [50] 81 1)).app
    HasActive app₁ 1 ∧ ¬ HasActive app₂ 1 ∧ (chatappDisconnectPeer app₃ 1).ret = -1 := by
  intro app₁ app₂ app₃
  have hr : Run next Any (chatappSetup 4000 3) [.addPeer 4 [49] 80 0] app₁ := exec_run rfl
  have hr₁ : Run next Any app₁ [.disconnectPeer 1] app₂ := exec_run rfl
  have hr₂ : Run next Any app₂ [.addPeer 4 [50] 81 1] app₃ := exec_run rfl
  have hact : HasActive app₁ 1 := ⟨0, rfl, rfl⟩
  have hgone : ¬ HasActive app₂ 1 := by
    rintro ⟨i, hi, -⟩
    revert i
    decide
  obtain ⟨-, -, -, -, -, h⟩ := peer_ids_unique hr
  exact ⟨hact, hgone, (h 1 _ _ _ _ hact hr₁ hgone hr₂ []).2⟩

end EmbeddedLinux.Chat
