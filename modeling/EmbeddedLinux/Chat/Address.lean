import EmbeddedLinux.Chat.Commands
import EmbeddedLinux.Chat.Order
import EmbeddedLinux.Lib.Inet

/-!
# The addresses in the table

A peer's address comes to the table on two ways.  `listen_thread` has it from `accept` and prints
it with `inet_ntop`; the main thread has a text that the user has typed, and connects only if
`inet_pton` accepts it.  `AddressOk` says this of the steps.

The two ways end in the same text, since there is only one for an address
(`Inet.inetPton_eq_some_iff`), and the array in a slot holds all of it.  So what
`chatapp_list_peers` prints for a peer can be typed behind `connect`, and is read as the
address and the port of its connection again: `listed_address_reads_back`.
-/

namespace EmbeddedLinux.Chat

open CString Inet Stdio Transition

/-- Where the addresses and the ports come from. -/
def AddressOk (s : State) : Action → Prop
  | .accept ip port _ => ∃ (a : Address) (p : UInt16), ip = inetNtop a ∧ port = p.toNat
  | .socket _ port _ => IsInt port
  | .dial c true => ∃ a, inetPton (s.conn c).ip = some a
  | _ => True

/-! ### A connection keeps what it was made with -/

namespace World

variable (w : World) (c c' : ConnId)

/-- The descriptor, the address and the port that a connection was made with. -/
def origin : Int × List UInt8 × Int := ((w.conn c).sockfd, (w.conn c).ip, (w.conn c).port)

theorem setConn_origin {k : Conn} (hk : (k.sockfd, k.ip, k.port) = w.origin c) :
    (w.setConn c k).origin c' = w.origin c' := by
  rw [origin, setConn_conn]
  split
  · rename_i hc
    rw [hk, hc]
  · rfl

@[simp] theorem setStage_origin (st : Stage) : (w.setStage c st).origin c' = w.origin c' :=
  w.setConn_origin c c' rfl

@[simp] theorem setHandler_origin (h : HandlerPc) : (w.setHandler c h).origin c' = w.origin c' :=
  w.setConn_origin c c' rfl

@[simp] theorem closeFd_origin (fd : Int) : (w.closeFd c fd).origin c' = w.origin c' := rfl

@[simp] theorem pthreadCancel_origin : (w.pthreadCancel c).origin c' = w.origin c' :=
  w.setConn_origin c c' rfl

@[simp] theorem peerCleanup_origin : (w.peerCleanup c).origin c' = w.origin c' := by
  rw [peerCleanup]
  split <;> rfl

theorem foldl_doCall_origin (xs : List Call) : (xs.foldl doCall w).origin c = w.origin c := by
  induction xs generalizing w with
  | nil => rfl
  | cons x xs ih =>
    rw [List.foldl_cons, ih]
    cases x with
    | close p => rfl
    | pthreadCancel p => exact pthreadCancel_origin w p.threadId c
    | send p m => rfl

@[simp] theorem doReply_origin (r : Reply) : (w.doReply r).origin c = w.origin c :=
  foldl_doCall_origin _ _ _

@[simp] theorem register_origin : (w.register c).origin c' = w.origin c' := by
  rw [register]
  split
  · rw [setStage_origin, doReply_origin]
  · refine (setConn_origin _ c c' ?_).trans (doReply_origin w c' _)
    exact (doReply_origin w c _).symm

theorem doReply_conns (r : Reply) : (w.doReply r).conns = w.conns := by
  have h : ∀ (xs : List Call) (w : World), (xs.foldl doCall w).conns = w.conns := by
    intro xs
    induction xs with
    | nil => exact fun w => rfl
    | cons x xs ih =>
      intro w
      rw [List.foldl_cons, ih]
      cases x <;> rfl
  exact h _ _

theorem register_conns : (w.register c).conns = w.conns := by
  rw [register]
  split <;> exact doReply_conns _ _

theorem newConn_origin (fd : Int) (ip : List UInt8) (port : Int) (st : Stage)
    (hc : c < w.conns) : (w.newConn fd ip port st).origin c = w.origin c := by
  rw [origin, newConn_of_ne w fd ip port st hc.ne, origin]

end World

/-- **No step changes what a connection was made with.** -/
theorem effect_origin (s : State) (a : Action) {c : ConnId} (hc : c < s.conns) :
    (effect s a).origin c = s.origin c := by
  cases a with
  | socket ip port fd =>
    cases fd with
    | none => rfl
    | some fd => exact World.newConn_origin _ _ _ _ _ _ hc
  | accept ip port fd =>
    cases fd with
    | none => rfl
    | some fd => exact World.newConn_origin _ _ _ _ _ _ hc
  | spawn t c' ok => cases ok <;> exact World.setConn_origin _ _ _ rfl
  | failClose t c' =>
    show (State.leave _ t).toWorld.origin c = _
    rw [State.leave_toWorld]
    simp
  | addPeer t c' =>
    show (ite _ _ _ : State).toWorld.origin c = _
    split
    · simp
    · rw [State.leave_toWorld]
      simp
  | refuseCancel t c' =>
    show (State.leave _ t).toWorld.origin c = _
    rw [State.leave_toWorld]
    simp
  | dial c' ok | refuseClose t c' | listPeers | sendMessage id msg | disconnectPeer id | stop
  | closeAll | recv c' gone | display c' | announce c' | deregister c' | loopClose c'
  | cleanupClose c' | cancelled c' => simp [effect]
  | closeListener | join | destroy | check | callAccept => rfl

/-! ### The invariant -/

/-- The maker is past the calls that look at the address. -/
def Stage.dialed : Stage → Bool
  | .spawning | .adding => true
  | _ => false

/-- What an active slot shows: the address of its connection, as `inet_ntop` prints it. -/
structure Shows (w : World) (p : Peer) : Prop where
  lt_conns : p.threadId < w.conns
  port_eq : p.port = (w.conn p.threadId).port
  address : ∃ a, inetPton (w.conn p.threadId).ip = some a ∧ cstr (List.ofFn p.ip) = inetNtop a

structure Shown (w : World) : Prop where
  port : ∀ c, c < w.conns → IsInt (w.conn c).port
  dialed : ∀ c, c < w.conns → (w.conn c).stage.dialed = true →
    ∃ a, inetPton (w.conn c).ip = some a
  slot : ∀ i, (w.app.peers i).active = true → Shows w (w.app.peers i)

variable {s : State} {a : Action}

/-- The connections that a step makes. -/
theorem effect_conns (s : State) (a : Action) (hok : AddressOk s a) :
    (effect s a).conns = s.conns ∨ (effect s a).conns = s.conns + 1 ∧
      IsInt ((effect s a).conn s.conns).port ∧
      (((effect s a).conn s.conns).stage.dialed = true →
        ∃ a', inetPton ((effect s a).conn s.conns).ip = some a') := by
  cases a with
  | socket ip port fd =>
    cases fd with
    | none => exact Or.inl rfl
    | some fd =>
      refine Or.inr ⟨rfl, ?_, ?_⟩
      all_goals rw [show (effect s (.socket ip port (some fd))).conn s.conns = _ from
        World.newConn_self s.toWorld fd ip port .dialing]
      · exact hok
      · intro h
        cases h
  | accept ip port fd =>
    cases fd with
    | none => exact Or.inl rfl
    | some fd =>
      obtain ⟨a', p, rfl, rfl⟩ := hok
      refine Or.inr ⟨rfl, ?_, ?_⟩
      all_goals rw [show (effect s (.accept (inetNtop a') p.toNat (some fd))).conn s.conns = _ from
        World.newConn_self s.toWorld fd (inetNtop a') p.toNat .spawning]
      · have hlt := p.toNat_lt
        show IsInt (p.toNat : Int)
        unfold IsInt
        omega
      · intro _
        exact ⟨a', inetPton_eq_some_iff.2 (cstr_of_zero_notMem (zero_notMem_inetNtop a'))⟩
  | failClose t c | refuseCancel t c =>
    left
    show (State.leave _ t).toWorld.conns = _
    rw [State.leave_toWorld]
    rfl
  | addPeer t c =>
    left
    show (ite _ _ _ : State).toWorld.conns = _
    split
    · exact World.register_conns _ c
    · rw [State.leave_toWorld]
      exact World.register_conns _ c
  | spawn t c ok => cases ok <;> exact Or.inl rfl
  | cleanupClose c =>
    left
    show (s.peerCleanup c).conns = _
    rw [World.peerCleanup]
    split <;> rfl
  | listPeers | sendMessage id msg | disconnectPeer id | stop | closeAll | deregister c =>
    exact Or.inl (World.doReply_conns _ _)
  | dial c ok | refuseClose t c | recv c gone | display c | announce c | loopClose c
  | cancelled c | closeListener | join | destroy | check | callAccept => exact Or.inl rfl

/-- Nothing but `inet_pton` lets a connection pass. -/
theorem dialed_makes (he : Enabled s a) (hok : AddressOk s a) {c : ConnId}
    (hmakes : a.makes = some c) (h : ((effect s a).conn c).stage.dialed = true) :
    (s.conn c).stage.dialed = true ∨ ∃ a', inetPton (s.conn c).ip = some a' := by
  cases a with
  | dial c' ok =>
    cases hmakes
    cases ok with
    | true => exact Or.inr hok
    | false =>
      rw [show ((effect s (.dial c false)).conn c).stage = .failing from
        congrArg Conn.stage (World.setConn_self s.toWorld c _)] at h
      cases h
  | spawn t c' ok =>
    cases hmakes
    rw [he.2]
    exact Or.inl rfl
  | addPeer t c' =>
    cases hmakes
    rw [he.2]
    exact Or.inl rfl
  | failClose t c' =>
    cases hmakes
    change ((State.leave _ t).toWorld.conn c).stage.dialed = true at h
    rw [State.leave_toWorld, World.setStage, World.setConn_self] at h
    cases h
  | refuseClose t c' =>
    cases hmakes
    change ((World.setStage _ c _).conn c).stage.dialed = true at h
    rw [World.setStage, World.setConn_self] at h
    cases h
  | refuseCancel t c' =>
    cases hmakes
    change ((State.leave _ t).toWorld.conn c).stage.dialed = true at h
    rw [State.leave_toWorld, World.setStage, World.setConn_self] at h
    cases h
  | _ => cases hmakes

/-- A slot that is active after a step was so before, or has been filled from the record of its
connection. -/
theorem slot_effect {i : Fin maxPeers} (h : ((effect s a).app.peers i).active = true) :
    (s.app.peers i).active = true ∧ (effect s a).app.peers i = s.app.peers i ∨
      ∃ t c, a = .addPeer t c ∧ (effect s a).app.peers i =
        peerSet (s.app.peers i) s.app.nextPeerId (s.conn c).sockfd (s.conn c).ip (s.conn c).port
          c := by
  rcases effect_app s a with happ | ⟨op, happ, hadd⟩
  · rw [happ] at h ⊢
    exact Or.inl ⟨h, rfl⟩
  · by_cases hop : ∃ t c, a = .addPeer t c
    · obtain ⟨t, c, rfl⟩ := hop
      have happ' : (effect s (.addPeer t c)).app = (reply s.app
          (.addPeer (s.conn c).sockfd (s.conn c).ip (s.conn c).port c)).app := by
        show (ite _ _ _ : State).app = _
        split
        · exact World.register_app _ _
        · rw [State.leave_toWorld]
          exact World.register_app _ _
      rw [happ'] at h ⊢
      rcases reply_slot s.app _ i h with hsame | ⟨fd, ip, port, tid, hop, -, -, -, hset⟩
      · rw [hsame] at h
        exact Or.inl ⟨h, hsame⟩
      · cases hop
        exact Or.inr ⟨t, c, rfl, hset⟩
    · rw [happ] at h ⊢
      rcases reply_slot s.app op i h with hsame | ⟨fd, ip, port, tid, hfill, -⟩
      · rw [hsame] at h
        exact Or.inl ⟨h, hsame⟩
      · obtain ⟨t, ha⟩ := hadd fd ip port tid hfill
        exact absurd ⟨t, tid, ha⟩ hop

/-- A slot shows an address that has been read. -/
theorem shows_peerSet {w : World} {c : ConnId} (hc : c < w.conns)
    (h : ∃ a, inetPton (w.conn c).ip = some a) (p : Peer) (id sockfd : Int) :
    Shows w (peerSet p id sockfd (w.conn c).ip (w.conn c).port c) := by
  obtain ⟨a, ha⟩ := h
  have hcopied : cstr (List.ofFn (peerSet p id sockfd (w.conn c).ip (w.conn c).port c).ip) =
      cstr (w.conn c).ip :=
    (cstr_strncpy 15 _).trans (List.take_of_length_le (length_of_inetPton ha))
  exact ⟨hc, rfl, a, ha, hcopied.trans (inetPton_eq_some_iff.1 ha)⟩

/-- What a slot shows does not change with the steps. -/
theorem Shows.effect {p : Peer} (h : Shows s.toWorld p) (a : Action) :
    Shows (effect s a).toWorld p := by
  obtain ⟨hc, hport, haddress⟩ := h
  have hsame := effect_origin s a hc
  rw [World.origin, World.origin, Prod.mk.injEq, Prod.mk.injEq] at hsame
  obtain ⟨-, hip, hp⟩ := hsame
  refine ⟨hc.trans_le (frame_effect s a _ rfl).conns, hport.trans hp.symm, ?_⟩
  rw [hip]
  exact haddress

theorem Shown.effect (hs : Ordered s) (h : Shown s.toWorld) (he : Enabled s a)
    (hok : AddressOk s a) : Shown (effect s a).toWorld := by
  have hf := frame_effect s a a.makes rfl
  -- a connection after the step is an old one, or the one that the step has made
  have hborn : ∀ c, c < (Chat.effect s a).conns → c < s.conns ∨
      c = s.conns ∧ IsInt ((Chat.effect s a).conn c).port ∧
        (((Chat.effect s a).conn c).stage.dialed = true →
          ∃ a', inetPton ((Chat.effect s a).conn c).ip = some a') := by
    intro c hc
    rcases effect_conns s a hok with hsame | ⟨hmore, hport, hdialed⟩
    · rw [hsame] at hc
      exact Or.inl hc
    · rw [hmore] at hc
      rcases Nat.lt_succ_iff_lt_or_eq.1 hc with hold | rfl
      · exact Or.inl hold
      · exact Or.inr ⟨rfl, hport, hdialed⟩
  have hrecord : ∀ c, c < s.conns → ((Chat.effect s a).conn c).ip = (s.conn c).ip ∧
      ((Chat.effect s a).conn c).port = (s.conn c).port :=
    fun c hc => Prod.mk.inj (Prod.mk.inj (effect_origin s a hc)).2
  refine ⟨fun c hc => ?_, fun c hc hd => ?_, fun i hi => ?_⟩
  · rcases hborn c hc with hold | ⟨-, hport, -⟩
    · rw [(hrecord c hold).2]
      exact h.port c hold
    · exact hport
  · rcases hborn c hc with hold | ⟨-, -, hdialed⟩
    · rw [(hrecord c hold).1]
      by_cases hmakes : a.makes = some c
      · rcases dialed_makes he hok hmakes hd with hbefore | hread
        · exact h.dialed c hold hbefore
        · exact hread
      · rw [hf.stage c hold hmakes] at hd
        exact h.dialed c hold hd
    · exact hdialed hd
  · rcases slot_effect hi with ⟨hbefore, hsame⟩ | ⟨t, c, rfl, hset⟩
    · rw [hsame]
      exact (h.slot i hbefore).effect a
    · rw [hset]
      have hc := (hs.making t c he.1).1
      have hread := h.dialed c hc (by rw [he.2]; rfl)
      exact (shows_peerSet hc hread _ _ _).effect (.addPeer t c)

theorem shown_run {port : Int} {fd : Nat} {inherited : Int → Bool}
    (hr : Reachable step AddressOk (initial port fd inherited) s) : Shown s.toWorld := by
  suffices h : Ordered s ∧ Shown s.toWorld from h.2
  refine hr.invariant (P := fun s => Ordered s ∧ Shown s.toWorld)
    ⟨Ordered.initial port fd inherited, ?_⟩ (fun t a u ht hok hn => ?_)
  · exact ⟨fun c hc => absurd hc (Nat.not_lt_zero c), fun c hc => absurd hc (Nat.not_lt_zero c),
      fun i hi => (by cases hi)⟩
  · obtain ⟨he, rfl⟩ := step_eq_some.mp hn
    exact ⟨ht.1.effect he, ht.2.effect ht.1 he hok⟩

/-! ### The main result -/

/-- An address is one word, without a byte that ends the line. -/
theorem isDestination_inetNtop (a : Address) :
    IsDestination (inetNtop a) ∧ newline ∉ inetNtop a ∧ (inetNtop a).length ≤ 15 := by
  have hnl : newline ∉ inetNtop a := by
    intro h
    rcases mem_inetNtop h with hb | hb
    · exact absurd hb (by decide)
    · exact absurd hb (by decide)
  have h0 := zero_notMem_inetNtop a
  have hlen : (inetNtop a).length ≤ 15 := by
    have := length_of_inetPton (inetPton_eq_some_iff.2 (cstr_of_zero_notMem h0))
    rwa [cstr_of_zero_notMem h0] at this
  have hpos : 1 ≤ (inetNtop a).length := by
    simp only [inetNtop, List.length_append, List.length_singleton]
    omega
  refine ⟨⟨hpos, by omega, h0, fun x hx => ?_⟩, hnl, hlen⟩
  rcases mem_inetNtop hx with hb | rfl
  · exact (isDigit_spec hb).1
  · rfl

/-- **A listed address reads back.**  In every state that is reached, the line that
`chatapp_list_peers` prints for a peer has the address and the port of its connection, and
`connect` with the two, as they are printed, asks for this address and this port. -/
theorem listed_address_reads_back {port : Int} {fd : Nat} {inherited : Int → Bool}
    (hr : Reachable step AddressOk (initial port fd inherited) s) {i : Fin maxPeers}
    (hi : (s.app.peers i).active = true) :
    let p := s.app.peers i
    ∃ a, inetPton (s.conn p.threadId).ip = some a ∧
      peerLine p = decimal p.id ++ text "\t" ++ inetNtop a ++ text "\t" ++
        decimal (s.conn p.threadId).port ++ text "\n" ∧
      inetPton (inetNtop a) = some a ∧
      ∀ serverPort rest, handleCommands serverPort
          (text "connect " ++ (inetNtop a ++ blank :: decimal p.port) ++ newline :: rest) =
        .connectToPeer (inetNtop a) (s.conn p.threadId).port :: handleCommands serverPort rest := by
  intro p
  have h := shown_run hr
  obtain ⟨hc, hport, a, hread, hshown⟩ := h.slot i hi
  obtain ⟨hword, hnl, h15⟩ := isDestination_inetNtop a
  have hint : IsInt p.port := by
    rw [hport]
    exact h.port _ hc
  refine ⟨a, hread, ?_, ?_, fun serverPort rest => ?_⟩
  · rw [peerLine, hshown, hport]
  · exact inetPton_eq_some_iff.2 (cstr_of_zero_notMem (zero_notMem_inetNtop a))
  · rw [← hport]
    have hdec := notMem_decimal p.port
    have hlen := length_decimal hint
    have hconnect := (handleCommand_connect serverPort _).trans (connectCommand_args hword hint)
    refine handleCommands_args (by decide) ⟨?_, ?_, ?_⟩ hconnect (by simp) rest
    · exact notMem_blank (by decide) hnl hdec.1
    · exact notMem_blank (by decide) (zero_notMem_inetNtop a) hdec.2
    · rw [length_blank]
      omega

/-- A peer that `listen_thread` has taken. -/
theorem listed_address_reads_back_one :
    ∃ s, Reachable step AddressOk (initial 4000 3 stdio) s ∧ (s.app.peers 0).active = true ∧
      ∃ a, inetPton (text "10.0.0.2") = some a ∧ ∀ serverPort rest, handleCommands serverPort
          (text "connect " ++ (inetNtop a ++ blank :: decimal 5000) ++ newline :: rest) =
        .connectToPeer (inetNtop a) 5000 :: handleCommands serverPort rest := by
  have hstep : ∀ s a, Reachable step AddressOk (initial 4000 3 stdio) s → AddressOk s a →
      Enabled s a → Reachable step AddressOk (initial 4000 3 stdio) (effect s a) :=
    fun s a hr hok he => hr.step hok (step_eq_some.2 ⟨he, rfl⟩)
  have h1 := hstep _ .check (.refl _) trivial rfl
  have h2 := hstep _ .callAccept h1 trivial rfl
  have h3 := hstep _ (.accept (text "10.0.0.2") 5000 (some 4)) h2
    ⟨⟨10, 0, 0, 2⟩, 5000, by decide, rfl⟩ ⟨rfl, by decide, rfl⟩
  have h4 := hstep _ (.spawn .listener 0 true) h3 trivial ⟨rfl, rfl⟩
  have h5 := hstep _ (.addPeer .listener 0) h4 trivial ⟨rfl, rfl⟩
  refine ⟨_, h5, rfl, ?_⟩
  obtain ⟨a, hread, -, -, hconnect⟩ := listed_address_reads_back h5 (i := 0) rfl
  exact ⟨a, hread, hconnect⟩

end EmbeddedLinux.Chat
