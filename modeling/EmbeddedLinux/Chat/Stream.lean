import EmbeddedLinux.Chat.App
import EmbeddedLinux.Lib.Segment

/-!
# Messages over one connection

The two ends of a connection: `chatapp_send_message` on the sender's table, whose
`send` on the connection's descriptor may accept a part of the message only, and the
`recv` loop of `peer_handle_thread` at the receiver.  In between are the bytes that
were accepted and not yet returned by `recv`; they arrive in order and without loss, and
`recv` cuts them where it likes.

Neither end marks where a message ends, and the value of `send` is not looked at.
So the receiver displays the messages as they were sent exactly when every `send`
accepted its message whole and every `recv` returned one message
(`messages_shown_iff`).
-/

namespace EmbeddedLinux.Chat

open CString Transition Segment

/-- `MAX_MSG_LEN` -/
abbrev maxMsgLen : Nat := 100

/-! ### The receiver -/

/-- The buffer after `memset`, a `recv` of the bytes `b` into its first
`MAX_MSG_LEN`, and `buffer[n] = '\0'`. -/
def recvBuffer (b : List UInt8) (h : b.length ≤ maxMsgLen) : Fin (maxMsgLen + 1) → UInt8 :=
  Function.update (fun i => b.getD i 0) ⟨b.length, Nat.lt_succ_of_le h⟩ 0

/-- The text `peer_handle_thread` prints for a string. -/
def messageText (m : List UInt8) : List UInt8 :=
  text "\n[Message received]: " ++ m ++ text "\n> "

/-- What `peer_handle_thread` prints when `recv` has returned the bytes `b`. -/
def display (b : List UInt8) (h : b.length ≤ maxMsgLen) : List UInt8 :=
  messageText (cstr (List.ofFn (recvBuffer b h)))

theorem messageText_inj {m m' : List UInt8} (h : messageText m = messageText m') : m = m' :=
  List.append_cancel_left (List.append_cancel_right h)

/-- **The bytes of one `recv` are displayed up to their first NUL.** -/
theorem display_eq (b : List UInt8) (h : b.length ≤ maxMsgLen) :
    display b h = messageText (cstr b) := by
  have hsplit : List.ofFn (recvBuffer b h) = b ++ List.replicate (maxMsgLen - b.length + 1) 0 := by
    apply List.ext_getElem
    · simp only [List.length_ofFn, List.length_append, List.length_replicate]
      omega
    · intro i h1 h2
      rw [List.length_ofFn] at h1
      rw [List.getElem_ofFn]
      by_cases hi : i < b.length
      · have hne : (⟨i, h1⟩ : Fin (maxMsgLen + 1)) ≠ ⟨b.length, Nat.lt_succ_of_le h⟩ := by
          intro e
          have := congrArg Fin.val e
          simp only at this
          omega
        rw [List.getElem_append_left hi]
        simp [recvBuffer, Function.update_of_ne hne, hi]
      · rw [List.getElem_append_right (by omega), List.getElem_replicate, recvBuffer,
          Function.update_apply]
        split
        · rfl
        · have hge : b.length ≤ i := by omega
          simp [hge]
  rw [display, hsplit, List.replicate_succ, cstr_append_zero]

/-! ### The connection -/

/-- The bytes a locked section hands to `send` on the descriptor `fd`. -/
def Reply.sentOn (fd : Int) (r : Reply) : Option (List UInt8) :=
  r.calls.findSome? (fun
    | .send p b => if p.sockfd = fd then some b else none
    | _ => none)

/-- Both ends of a connection, and the bytes between them. -/
structure Link where
  app : ChatApp
  wire : List UInt8
  /-- the messages of the calls that returned 0, and how much of each `send` accepted -/
  sent : List (Portion UInt8)
  /-- what the `recv` calls have returned -/
  pieces : List (List UInt8)
  /-- what the receiver has printed -/
  shown : List (List UInt8)

inductive LinkAction
  /-- a locked section of the sender's process that sends nothing on the connection -/
  | other (op : Op)
  /-- `chatapp_send_message(app, id, msg)`, of which `send` accepts `k` bytes -/
  | send (id : Int) (msg : List UInt8) (k : Nat)
  /-- `recv` returns `n` bytes -/
  | recv (n : Nat)

namespace Link

/-- Nothing has been sent yet. -/
def initial (app : ChatApp) : Link :=
  { app := app, wire := [], sent := [], pieces := [], shown := [] }

/-- The connection has the descriptor `fd` at the sender. -/
def step (fd : Int) (l : Link) : LinkAction → Option Link
  | .other op =>
    match (reply l.app op).sentOn fd with
    | none => some { l with app := (reply l.app op).app }
    | some _ => none
  | .send id msg k =>
    let r := chatappSendMessage l.app id msg
    if h : r.ret = 0 ∧ r.sentOn fd = some (cstr msg) ∧ k ≤ (cstr msg).length then
      some { l with
        app := r.app
        wire := l.wire ++ (cstr msg).take k
        sent := l.sent ++ [⟨msg, k, le_trans h.2.2 (List.takeWhile_prefix _).length_le⟩] }
    else none
  | .recv n =>
    if h : 1 ≤ n ∧ n ≤ maxMsgLen ∧ n ≤ l.wire.length then
      some { l with
        wire := l.wire.drop n
        pieces := l.pieces ++ [l.wire.take n]
        shown := l.shown ++
          [display (l.wire.take n) (le_trans (List.length_take_le _ _) h.2.1)] }
    else none

/-- Nothing is lost between the two ends, and the receiver prints every piece. -/
structure Kept (l : Link) : Prop where
  bytes : l.pieces.flatten ++ l.wire =
    (l.sent.map (fun x => (cstr x.msg).take x.accepted)).flatten
  shown : l.shown = l.pieces.map (fun b => messageText (cstr b))

theorem kept_step {fd : Int} {l l' : Link} {a : LinkAction} (h : Kept l)
    (hn : step fd l a = some l') : Kept l' := by
  cases a with
  | other op =>
    rw [step] at hn
    split at hn
    · cases hn
      exact ⟨h.bytes, h.shown⟩
    · cases hn
  | send id msg k =>
    rw [step] at hn
    split at hn
    · cases hn
      refine ⟨?_, h.shown⟩
      simp only [List.map_append, List.map_cons, List.map_nil, List.flatten_append,
        List.flatten_cons, List.flatten_nil, List.append_nil]
      rw [← List.append_assoc, h.bytes]
    · cases hn
  | recv n =>
    rw [step] at hn
    split at hn
    · cases hn
      constructor
      · simp only [List.flatten_append, List.flatten_cons, List.flatten_nil, List.append_nil]
        rw [List.append_assoc, List.take_append_drop, h.bytes]
      · simp only [List.map_append, List.map_cons, List.map_nil, h.shown, display_eq]
    · cases hn

theorem kept_run {fd : Int} {app : ChatApp} {l : Link}
    (hr : Reachable (step fd) Any (initial app) l) : Kept l :=
  hr.invariant ⟨rfl, rfl⟩ (fun _ _ _ h _ hn => kept_step h hn)

/-- Messages without NUL reach the receiver without NUL. -/
theorem zero_notMem_piece {l : Link} (h : Kept l) {b : List UInt8} (hb : b ∈ l.pieces) :
    0 ∉ b := by
  intro h0
  have hmem : (0 : UInt8) ∈ l.pieces.flatten ++ l.wire :=
    List.mem_append_left _ (List.mem_flatten.mpr ⟨b, hb, h0⟩)
  rw [h.bytes] at hmem
  obtain ⟨y, hy, h0'⟩ := List.mem_flatten.mp hmem
  obtain ⟨x, -, rfl⟩ := List.mem_map.mp hy
  exact zero_notMem_cstr x.msg (List.mem_of_mem_take h0')

end Link

/-! ### When the messages arrive as sent -/

/-- A message of 1 to `MAX_MSG_LEN` bytes without NUL. -/
def Message (m : List UInt8) : Prop := 1 ≤ m.length ∧ m.length ≤ maxMsgLen ∧ 0 ∉ m

instance (m : List UInt8) : Decidable (Message m) := inferInstanceAs (Decidable (_ ∧ _ ∧ _))

/-- **When messages arrive as sent.**  Once all bytes have been received, the receiver
has displayed the messages, one line each and in their order, if and only if every
`send` accepted its message whole and the `recv` calls returned the lengths of the
messages. -/
theorem messages_shown_iff {fd : Int} {app : ChatApp} {l : Link}
    (hr : Reachable (Link.step fd) Any (Link.initial app) l)
    (hmsg : ∀ x ∈ l.sent, Message x.msg) (hall : l.wire = []) :
    l.shown = l.sent.map (fun x => messageText x.msg) ↔
      (∀ x ∈ l.sent, x.whole) ∧
      l.pieces.map List.length = (l.sent.map Portion.msg).map List.length := by
  have h := Link.kept_run hr
  have hbytes : l.pieces.flatten = (l.sent.map Portion.taken).flatten := by
    have hb := h.bytes
    rw [hall, List.append_nil] at hb
    rw [hb]
    congr 1
    apply List.map_congr_left
    intro x hx
    rw [cstr_of_zero_notMem (hmsg x hx).2.2, Portion.taken]
  have hshown : l.shown = l.pieces.map messageText := by
    rw [h.shown]
    apply List.map_congr_left
    intro b hb
    rw [cstr_of_zero_notMem (Link.zero_notMem_piece h hb)]
  have hsent : l.sent.map (fun x => messageText x.msg) =
      (l.sent.map Portion.msg).map messageText := by
    rw [List.map_map]
    rfl
  rw [hshown, hsent, ← pieces_eq_iff hbytes]
  constructor
  · intro e
    exact List.map_injective_iff.mpr (fun _ _ e => messageText_inj e) e
  · intro e
    rw [e]

/-- A sender with one peer, on descriptor 4. -/
def onePeer : ChatApp := (chatappAddPeer (chatappSetup 4000 3) 4 (text "10.0.0.2") 5000 0).app

/-- Two messages, each received by a `recv` of its own. -/
theorem messages_shown_two :
    ∃ l, exec (Link.step 4) (Link.initial onePeer)
        [.send 1 (text "hi") 2, .recv 2, .send 1 (text "you") 3, .recv 3] = some l ∧
      l.shown = [messageText (text "hi"), messageText (text "you")] := by
  have hr : Reachable (Link.step 4) Any (Link.initial onePeer) _ :=
    ⟨[.send 1 (text "hi") 2, .recv 2, .send 1 (text "you") 3, .recv 3], exec_run rfl⟩
  refine ⟨_, rfl, (messages_shown_iff hr ?_ rfl).mpr ⟨?_, rfl⟩⟩
  · decide
  · decide

/-- **Two messages displayed as one**: `recv` is called when both have arrived. -/
theorem messages_joined :
    ∃ l, Run (Link.step 4) Any (Link.initial onePeer)
        [.send 1 (text "hi") 2, .send 1 (text "you") 3, .recv 5] l ∧
      l.sent.map Portion.msg = [text "hi", text "you"] ∧ (∀ x ∈ l.sent, Message x.msg) ∧
      l.wire = [] ∧ l.shown = [messageText (text "hiyou")] ∧
      l.shown ≠ l.sent.map (fun x => messageText x.msg) :=
  ⟨_, exec_run rfl, rfl, by decide, rfl, rfl, by decide⟩

end EmbeddedLinux.Chat
