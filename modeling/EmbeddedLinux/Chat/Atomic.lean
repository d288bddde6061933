import EmbeddedLinux.Chat.Ids
import EmbeddedLinux.Chat.Mutex
import EmbeddedLinux.Lib.Sections

/-!
# The locked sections are atomic

`Code` has the operations statement by statement; `App` has each locked section as one
function of the table.  The two agree (`Replies`): a section that finds the table `app` leaves
`(reply app op).app`, and its function goes on with `(reply app op).ret`.  What a section
prints and calls is not compared, as other threads print and make calls meanwhile.

By `Serial.reachable` this holds with all threads interleaved: while the mutex is free, the
table is what a run of `next` leaves, and whoever has the mutex can go on by itself and release
it, and has then done one of the operations or changed nothing (`sections_atomic`).
-/

namespace EmbeddedLinux.Chat

open CString Locking Transition

namespace Code

/-- The table changes in `set` only. -/
theorem guards : Guards machine discipline Mem.app := by
  intro x e mem r mem' hneeds hexec
  cases x <;> cases hneeds <;> cases e <;> cases hexec <;> rfl

/-- The statements of a section: what the table has, and calls that do not wait. -/
def prompt : Stmt → Bool
  | .read _ | .set _ | .printf _ | .close _ | .send _ _ | .pthreadCancel _ => true
  | _ => false

theorem canEnd {x : Stmt} (hx : prompt x = true) : CanEnd machine x := by
  cases x <;> cases hx <;> exact ⟨rfl, fun _ => rfl, fun _ => ⟨.none, _, _, rfl⟩⟩

/-- A program within a section that finds the table `app`. -/
abbrev End (Q : ChatApp → Code → Prop) (app : ChatApp) (k : Code) : Prop :=
  Ends machine Mem.app Q app k

variable {Q : ChatApp → Code → Prop} {app : ChatApp}

theorem end_read {α : Type} {f : ChatApp → α} {k : α → Code} (hk : End Q app (k (f app))) :
    End Q app (.stmt (.read f) k) := by
  refine ⟨canEnd rfl, fun e mem r mem' hmem hexec => ?_⟩
  subst hmem
  cases e <;> cases hexec
  exact hk

theorem end_set {f : ChatApp → ChatApp} {k : Code} (hk : End Q (f app) k) :
    End Q app (run (.set f) k) := by
  refine ⟨canEnd rfl, fun e mem r mem' hmem hexec => ?_⟩
  subst hmem
  cases e <;> cases hexec
  exact hk

theorem end_run {x : Stmt} (hx : x.needs = false) (hp : prompt x = true) {k : Code}
    (hk : End Q app k) : End Q app (run x k) :=
  guards.ends hx (canEnd hp) (fun _ => hk)

theorem end_test {f : ChatApp → Bool} {yes no : Code} (hyes : f app = true → End Q app yes)
    (hno : f app = false → End Q app no) : End Q app (test f yes no) := by
  refine end_read ?_
  cases h : f app
  · exact hno h
  · exact hyes h

/-- **A loop that stops at the first slot that fits.** -/
theorem end_search {p : Peer → Bool} {found : Fin maxPeers → Code} {k : Code}
    (hfound : ∀ i, app.firstSlot p = some i → End Q app (found i))
    (hk : app.firstSlot p = none → End Q app k) :
    End Q app (forPeers (fun i next => test (fun app => p (app.peers i)) (found i) next) k) := by
  unfold ChatApp.firstSlot at hfound hk
  rw [Fin.find?_eq_find?_finRange] at hk
  simp only [Fin.find?_eq_find?_finRange] at hfound
  unfold forPeers
  generalize List.finRange maxPeers = is at hfound hk ⊢
  induction is with
  | nil => exact hk rfl
  | cons i is ih =>
    refine end_test (fun hi => hfound i ?_) (fun hi => ?_)
    · simp only [List.find?_cons, hi]
    · simp only [List.find?_cons, hi] at hfound hk
      exact ih hfound hk

/-! ### The loop of `chatapp_shutdown` -/

/-- What the loop makes of the table on the slots `is`. -/
def clearActive (app : ChatApp) (is : List (Fin maxPeers)) : ChatApp :=
  { app with
    peers := fun j =>
      if j ∈ is ∧ (app.peers j).active = true then (app.peers j).clear else app.peers j }

theorem clearActive_nil (app : ChatApp) : clearActive app [] = app := by
  simp [clearActive]

theorem clearActive_active {i : Fin maxPeers} (hi : (app.peers i).active = true)
    (is : List (Fin maxPeers)) :
    clearActive (app.setPeer i (app.peers i).clear) is = clearActive app (i :: is) := by
  unfold clearActive ChatApp.setPeer
  congr 1
  funext j
  by_cases hj : j = i
  · subst hj
    simp [hi]
  · simp [hj]

theorem clearActive_inactive {i : Fin maxPeers} (hi : (app.peers i).active = false)
    (is : List (Fin maxPeers)) : clearActive app is = clearActive app (i :: is) := by
  unfold clearActive
  congr 1
  funext j
  by_cases hj : j = i
  · subst hj
    simp [hi]
  · simp [hj]

theorem clearActive_all (app : ChatApp) :
    clearActive app (List.finRange maxPeers) = (closeAll app).app := by
  simp [clearActive, closeAll]

/-- The body of the loop. -/
def closeSlot (i : Fin maxPeers) (next : Code) : Code :=
  test (fun app => (app.peers i).active)
    (.stmt (.read fun app => (app.peers i).sockfd) fun fd =>
      run (.close fd) <|
      .stmt (.read fun app => (app.peers i).threadId) fun tid =>
      run (.pthreadCancel tid) <|
      run (.set fun app => app.setPeer i (app.peers i).clear) next)
    next

theorem end_closeSlot (is : List (Fin maxPeers)) {k : Code} (hk : End Q (clearActive app is) k) :
    End Q app (Prog.forEach closeSlot is k) := by
  induction is generalizing app with
  | nil =>
    rw [clearActive_nil] at hk
    exact hk
  | cons i is ih =>
    refine end_test (fun hi => ?_) (fun hi => ih ?_)
    · refine end_read (end_run rfl rfl (end_read (end_run rfl rfl (end_set (ih ?_)))))
      rw [clearActive_active hi]
      exact hk
    · rw [clearActive_inactive hi]
      exact hk

/-! ### The sections -/

/-- Where a section ends whose reply is `r`, in a function that does `k` with the value it returns:
the table is that of the reply, and the function returns the reply's value, at once or after one
more line. -/
def Replies (r : Reply) (k : Int → Code) (app : ChatApp) (k' : Code) : Prop :=
  app = r.app ∧ (k' = k r.ret ∨ ∃ out, k' = run (.printf out) (k r.ret))

/-- A program that begins with the section `op`. -/
def Does (op : Op) (k : Int → Code) (p : Code) : Prop :=
  Section machine Mem.app (fun app => Replies (reply app op) k) p

theorem addPeer_does (sockfd : Int) (ip : List UInt8) (port : Int) (tid : Tid) (k : Int → Code) :
    Does (.addPeer sockfd ip port tid) k (chatappAddPeer sockfd ip port tid k) := by
  intro app
  change End (Replies (Chat.chatappAddPeer app sockfd ip port tid) k) app _
  unfold Chat.chatappAddPeer
  refine end_test (fun hlim => ?_) (fun hlim => ?_)
  · rw [if_pos (of_decide_eq_true hlim)]
    exact end_run rfl rfl ⟨rfl, Or.inl rfl⟩
  · rw [if_neg (of_decide_eq_false hlim)]
    refine end_search (p := Peer.free) (fun i hi => ?_) (fun hnone => ?_)
    · rw [hi]
      exact end_set (end_read ⟨rfl, Or.inl rfl⟩)
    · rw [hnone]
      exact ⟨rfl, Or.inl rfl⟩

/-- Behind its first line. -/
theorem listPeers_does (k : Code) : ∃ p, chatappListPeers k = printf "ID\tIP Address\tPort\n" p ∧
    Does .listPeers (fun _ => k) p := by
  refine ⟨_, rfl, fun app => ?_⟩
  have hend : End (Replies (Chat.chatappListPeers app) fun _ => k) app (.unlock k) :=
    ⟨rfl, Or.inl rfl⟩
  refine ends_forEach (fun i next hnext => ?_) hend _
  exact end_test (fun _ => end_read (end_run rfl rfl hnext)) (fun _ => hnext)

theorem sendMessage_does (id : Int) (msg : List UInt8) (k : Int → Code) :
    Does (.sendMessage id msg) k (chatappSendMessage id msg k) := by
  intro app
  change End (Replies (Chat.chatappSendMessage app id msg) k) app _
  unfold Chat.chatappSendMessage
  refine end_search (p := Peer.hasId id) (fun i hi => ?_) (fun hnone => ?_)
  · rw [hi]
    exact end_read (end_run rfl rfl ⟨rfl, Or.inl rfl⟩)
  · rw [hnone]
    exact ⟨rfl, Or.inr ⟨_, rfl⟩⟩

theorem disconnectPeer_does (id : Int) (k : Int → Code) :
    Does (.disconnectPeer id) k (chatappDisconnectPeer id k) := by
  intro app
  change End (Replies (Chat.chatappDisconnectPeer app id) k) app _
  unfold Chat.chatappDisconnectPeer
  refine end_search (p := Peer.hasId id) (fun i hi => ?_) (fun hnone => ?_)
  · rw [hi]
    refine end_read (end_run rfl rfl (end_read (end_run rfl rfl (end_set (end_run rfl rfl ?_)))))
    exact ⟨rfl, Or.inl rfl⟩
  · rw [hnone]
    exact ⟨rfl, Or.inr ⟨_, rfl⟩⟩

theorem deregister_does (sockfd : Int) (k : Code) :
    Does (.deregister sockfd) (fun _ => k) (deregister sockfd k) := by
  intro app
  change End (Replies (Chat.deregister app sockfd) fun _ => k) app _
  unfold Chat.deregister
  refine end_search (p := Peer.hasSockfd sockfd) (fun i hi => ?_) (fun hnone => ?_)
  · rw [hi]
    exact end_set ⟨rfl, Or.inl rfl⟩
  · rw [hnone]
    exact ⟨rfl, Or.inl rfl⟩

/-- The two sections of `chatapp_shutdown`. -/
theorem shutdown_does (k : Code) : ∃ p,
    Does .stop (fun _ => run .closeListener (run .pthreadJoin p)) (chatappShutdown k) ∧
      Does .closeAll (fun _ => k) p := by
  refine ⟨_, fun app => end_set ⟨rfl, Or.inl rfl⟩, fun app => ?_⟩
  refine end_closeSlot (List.finRange maxPeers) ⟨?_, Or.inl rfl⟩
  exact clearActive_all app

/-! ### The threads -/

/-- The sections of a program are those of `App`. -/
abbrev Follow (k : Code) : Prop := Follows machine Mem.app next none k

theorem Does.follow {op : Op} {k : Int → Code} {p : Code} (h : Does op k p)
    (hk : ∀ ret, Follow (k ret)) : Follow p := by
  refine Section.follows h ?_
  rintro app app' k' ⟨rfl, rfl | ⟨out, rfl⟩⟩
  · exact ⟨Or.inr ⟨op, rfl⟩, hk _⟩
  · exact ⟨Or.inr ⟨op, rfl⟩, fun _ => hk _⟩

theorem follow_connectPeer {ip : List UInt8} {port : Int} {k : Int → Code}
    (hk : ∀ id, Follow (k id)) : Follow (chatappConnectPeer ip port k) := by
  intro fd
  cases fd with
  | none => exact fun _ => hk _
  | some sockfd =>
    intro ok
    cases ok
    · exact fun _ _ => hk _
    intro ok
    cases ok
    · exact fun _ _ => hk _
    intro _ ok
    cases ok
    · exact fun _ _ => hk _
    intro tid
    cases tid with
    | none => exact fun _ _ => hk _
    | some tid =>
      refine (addPeer_does sockfd ip port tid _).follow (fun id => ?_)
      split
      · exact fun _ _ _ => hk _
      · exact fun _ => hk _

theorem follow_listPeers {k : Code} (hk : Follow k) : Follow (chatappListPeers k) := by
  obtain ⟨p, hp, hdoes⟩ := listPeers_does k
  rw [hp]
  exact fun _ => hdoes.follow (fun _ => hk)

theorem follow_shutdown {k : Code} (hk : Follow k) : Follow (chatappShutdown k) := by
  obtain ⟨p, hstop, hclose⟩ := shutdown_does k
  exact hstop.follow (fun _ _ _ => hclose.follow (fun _ => hk))

theorem follow_listenThread : Follow listenThread := by
  -- the section that reads `running` changes nothing
  have hread : Section machine Mem.app (fun app app' k => app' = app ∧ Follow k) listenThread := by
    refine fun app => end_read ⟨rfl, ?_⟩
    split
    · trivial
    intro peer
    cases peer with
    | none => exact fun _ => trivial
    | some peer =>
      intro _ ok
      cases ok
      · exact fun _ _ => trivial
      intro tid
      cases tid with
      | none => exact fun _ _ => trivial
      | some tid =>
        refine (addPeer_does peer.1 peer.2.1 peer.2.2 tid _).follow (fun id => ?_)
        split
        · exact fun _ _ _ => trivial
        · exact fun _ => trivial
  exact hread.follows (fun app app' k h => ⟨Or.inl h.1, h.2⟩)

theorem follow_body (l : Label) : Follow (body l) := by
  cases l with
  | main =>
    have hagain : Follow (.goto .main) := trivial
    intro cmd
    cases cmd with
    | connectPeer ip port => exact follow_connectPeer (fun _ => hagain)
    | listPeers => exact follow_listPeers hagain
    | sendMessage id msg => exact (sendMessage_does id msg _).follow (fun _ => hagain)
    | disconnectPeer id => exact (disconnectPeer_does id _).follow (fun _ => hagain)
    | shutdown => exact follow_shutdown trivial
  | listenThread => exact follow_listenThread
  | peerHandleThread sockfd => exact trivial
  | receive sockfd =>
    intro b
    cases b with
    | none => exact fun _ => (deregister_does sockfd _).follow (fun _ _ => trivial)
    | some b => exact fun _ _ => trivial

end Code

/-! ### All threads -/

theorem serial_launched (port fd : Int) :
    Serial machine Mem.app next (launched port fd) (chatappSetup port fd) where
  threads t th ht := by
    cases t with
    | main | listener =>
      cases ht
      exact trivial
    | handler tid => cases ht
  free _ := rfl

/-- **The sections are the operations.**  Each function with a locked section does what its
operation says to whatever table it finds; two sections are in `chatapp_shutdown`. -/
structure Operations : Prop where
  addPeer : ∀ sockfd ip port tid k,
    Code.Does (.addPeer sockfd ip port tid) k (Code.chatappAddPeer sockfd ip port tid k)
  listPeers : ∀ k, ∃ p, Code.chatappListPeers k = Code.printf "ID\tIP Address\tPort\n" p ∧
    Code.Does .listPeers (fun _ => k) p
  sendMessage : ∀ id msg k, Code.Does (.sendMessage id msg) k (Code.chatappSendMessage id msg k)
  disconnectPeer : ∀ id k, Code.Does (.disconnectPeer id) k (Code.chatappDisconnectPeer id k)
  deregister : ∀ sockfd k,
    Code.Does (.deregister sockfd) (fun _ => k) (Code.deregister sockfd k)
  shutdown : ∀ k, ∃ p, Code.Does .stop (fun _ => Code.run .closeListener (Code.run .pthreadJoin p))
    (Code.chatappShutdown k) ∧ Code.Does .closeAll (fun _ => k) p

theorem operations : Operations where
  addPeer := Code.addPeer_does
  listPeers := Code.listPeers_does
  sendMessage := Code.sendMessage_does
  disconnectPeer := Code.disconnectPeer_does
  deregister := Code.deregister_does
  shutdown := Code.shutdown_does

/-- What holds at the start and is kept by every operation. -/
theorem idsOk_reachable {port fd : Int} {app : ChatApp}
    (hr : Reachable next Any (chatappSetup port fd) app) : IdsOk app := by
  refine hr.invariant (idsOk_setup port fd) ?_
  rintro app op _ happ - hn
  cases hn
  exact idsOk_reply happ op

/-- The main thread connects to a peer, up to the assignment that registers it. -/
def connecting : List (Locking.Action ThreadId Input) :=
  [.run .main .none, .run .main (.command (.connectPeer (text "10.0.0.2") 4000)),
    .run .main (.fd (some 4)), .run .main (.ok true), .run .main (.ok true), .run .main .none,
    .run .main (.ok true), .run .main (.tid (some 0)), .run .main .none, .run .main .none,
    .run .main .none, .run .main .none]

end EmbeddedLinux.Chat
