import EmbeddedLinux.IpcSocket.Received
import EmbeddedLinux.Lib.LossyNet
import EmbeddedLinux.Lib.Progress

/-!
# Lines from the UDP clients to the UDP server

Any number of clients each read a line and send it, with its newline, to a server that receives
once.  What `sendto` and `recvfrom` return is not looked at, and the network may lose, reorder and
double the datagrams.

What `fgets` returns is not looked at either: at the end of the input a client sends and prints
what its array has held all along, which is any string, or if there is no NUL in it runs over its
end.

A line fits into the 1024 bytes of the server with a NUL behind it, and so does such a string.  So
the server shows the message of one client, whole and unmixed, as this client shows it too; or if
its `recvfrom` has failed, an empty line (`one_line_shown`).
-/

namespace EmbeddedLinux.IpcSocket.Ipv4Dgram

open CString LossyNet Stdio Transition

/-! ### The programs -/

inductive ClientPc
  | socket
  /-- at `fgets` -/
  | reading
  | sending (message : List UInt8)
  | printing (message : List UInt8)
  | ended (out : List UInt8)
  /-- `socket` has failed -/
  | failed
  /-- `fgets` has read nothing, and there is no NUL in `message` -/
  | undefined

inductive ServerPc
  | socket
  | binding
  | receiving
  | printing (arrived : Arrived)
  | ended (outcome : Option Outcome)
  /-- `socket` or `bind` has failed -/
  | failed

/-- The socket has the port. -/
def ServerPc.isBound : ServerPc → Bool
  | receiving | printing _ => true
  | _ => false

/-- The datagrams, with the clients they are from. -/
structure State (T : Type*) where
  client : T → ClientPc
  server : ServerPc
  net : Net (T × List UInt8)

inductive Action (T : Type*)
  /-- the next step of a client; `ok`: the call does not fail -/
  | client (t : T) (ok : Bool)
  | server (ok : Bool)
  | lose (i : Nat)
  | arrive (i : Nat) (stays : Bool)

/-- What a client is given: its input, and what is in the array `message` when it starts. -/
structure Given where
  input : List UInt8
  message : Fin bufferSize → UInt8

/-- The string that is in `message` after `fgets`. -/
def Given.sent (g : Given) : Option (List UInt8) :=
  match fgets bufferSize g.input with
  | some (line, _) => some (cstr line)
  | none =>
    if 0 ∈ uninitialised g.message then some (cstr (uninitialised g.message)) else none

/-- What the client prints. -/
def clientOut (message : List UInt8) : List UInt8 :=
  text "Enter a message to send: " ++ text "Client sent: " ++ message ++ text "\n"

variable {T : Type*} [DecidableEq T]

def State.goto (s : State T) (t : T) (pc : ClientPc) : State T :=
  { s with client := Function.update s.client t pc }

/-- `main` of the client. -/
def clientStep (g : Given) (t : T) (ok : Bool) (s : State T) : Option (State T) :=
  match s.client t with
  | .socket => some (s.goto t (if ok then .reading else .failed))
  | .reading =>
    match g.sent with
    | none => some (s.goto t .undefined)
    | some message => some (s.goto t (.sending message))
  | .sending message =>
    some { s.goto t (.printing message) with
      net := if ok then s.net.send (t, message) else s.net }
  | .printing message => some (s.goto t (.ended (clientOut message)))
  | _ => none

/-- `main` of the server. -/
def serverStep (ok : Bool) (s : State T) : Option (State T) :=
  match s.server with
  | .socket => some { s with server := if ok then .binding else .failed }
  | .binding => some { s with server := if ok then .receiving else .failed }
  | .receiving =>
    if ok then
      s.net.receive.map (fun r => { s with server := .printing (.ok r.1.2), net := r.2 })
    else some { s with server := .printing (.error []) }
  | .printing arrived => some { s with server := .ended (ipv4Dgram arrived) }
  | _ => none

def next (given : T → Given) (s : State T) : Action T → Option (State T)
  | .client t ok => clientStep (given t) t ok s
  | .server ok => serverStep ok s
  | .lose i => (s.net.lose i).map (fun net => { s with net := net })
  | .arrive i stays =>
    (s.net.arrive i stays s.server.isBound).map (fun net => { s with net := net })

def initial : State T :=
  { client := fun _ => .socket, server := .socket, net := .empty }

/-! ### The messages -/

variable {given : T → Given} {g : Given} {s s' : State T} {t : T} {d : List UInt8}

/-- A message leaves room for the NUL. -/
theorem sent_length (h : g.sent = some d) : d.length < bufferSize ∧ 0 ∉ d := by
  unfold Given.sent at h
  split at h
  · rename_i line rest hread
    cases h
    refine ⟨?_, zero_notMem_cstr line⟩
    unfold fgets at hread
    split at hread
    · cases hread
    · have hline : (takeLine (bufferSize - 1) g.input).1 = line :=
        congrArg Prod.fst (Option.some_inj.1 hread)
      have hlen := (takeLine_cases (bufferSize - 1) g.input).2
      have hcut : (cstr line).length ≤ line.length := (List.takeWhile_sublist _).length_le
      rw [hline] at hlen
      exact Nat.lt_succ_of_le (hcut.trans hlen)
  · split at h
    · rename_i h0
      have hlen : (uninitialised g.message).length = bufferSize := List.length_ofFn
      rw [← Option.some_inj.1 h, ← hlen]
      exact ⟨cstr_length_lt h0, zero_notMem_cstr _⟩
    · cases h

/-- A line that fits, up to its newline. -/
theorem sent_line {body rest : List UInt8} {message : Fin bufferSize → UInt8}
    (hnl : newline ∉ body) (h0 : 0 ∉ body) (hlen : body.length ≤ 1022) :
    Given.sent { input := body ++ newline :: rest, message := message } =
      some (body ++ [newline]) := by
  have hread := fgets_line (n := bufferSize) hnl (by show body.length + 1 < 1024; omega) rest
  have h0' : 0 ∉ body ++ [newline] := by
    rw [List.mem_append, List.mem_singleton, not_or]
    exact ⟨h0, by decide⟩
  rw [Given.sent, hread]
  exact congrArg some (cstr_of_zero_notMem h0')

/-- **The server shows what it has received.** -/
theorem ipv4Dgram_message (h : g.sent = some d) :
    ipv4Dgram (.ok d) = some { out := line d, err := [], status := 0 } := by
  obtain ⟨hlen, h0⟩ := sent_length h
  have htake : d.take bufferSize = d := List.take_of_length_le (Nat.le_of_lt hlen)
  have hprints := ipv4Server_prints_iff.2 (.inl hlen)
  rw [htake, Prints, cstr_of_zero_notMem h0] at hprints
  exact hprints

/-- After an error it shows the array it has cleared. -/
theorem ipv4Dgram_error (e : List UInt8) :
    ipv4Dgram (.error e) = some { out := line [], err := [], status := 0 } := by
  have hprints : Prints (finish ([] ++ zeroed)) [] := prints_finish_iff.2 (.inr rfl)
  exact hprints

/-! ### What is sent and what is shown -/

/-- The client has sent the message, or it has tried to. -/
def Past (s : State T) (t : T) (d : List UInt8) : Prop :=
  s.client t = .printing d ∨ s.client t = .ended (clientOut d)

/-- The message of a client. -/
def From (given : T → Given) (s : State T) (t : T) (d : List UInt8) : Prop :=
  (given t).sent = some d ∧ Past s t d

/-- In the run `as` the server's `recvfrom` has failed. -/
def RecvFails (given : T → Given) (as : List (Action T)) : Prop :=
  ∃ as₁ as₂ u, as = as₁ ++ .server false :: as₂ ∧ Run (next given) Any initial as₁ u ∧
    u.server = .receiving

theorem RecvFails.snoc {as : List (Action T)} (h : RecvFails given as) (a : Action T) :
    RecvFails given (as ++ [a]) := by
  obtain ⟨as₁, as₂, u, rfl, hrun, hu⟩ := h
  exact ⟨as₁, as₂ ++ [a], u, by rw [List.append_assoc, List.cons_append], hrun, hu⟩

/-- **What holds in every state**, where `failed` says that `recvfrom` has failed. -/
structure Sent (given : T → Given) (failed : Prop) (s : State T) : Prop where
  client : ∀ t d, s.client t = .sending d ∨ s.client t = .printing d → (given t).sent = some d
  net : s.net.All (fun x => From given s x.1 x.2)
  received : ∀ d, s.server = .printing (.ok d) → ∃ t, From given s t d
  error : ∀ e, s.server = .printing (.error e) → failed
  ended : ∀ o, s.server = .ended o →
    failed ∧ o = some { out := line [], err := [], status := 0 } ∨
      ∃ t d, From given s t d ∧ o = some { out := line d, err := [], status := 0 }

variable {failed failed' : Prop}

omit [DecidableEq T] in
theorem sent_initial (given : T → Given) : Sent given failed (initial : State T) where
  client _ _ h := by rcases h with h | h <;> cases h
  net := .empty
  received := nofun
  error := nofun
  ended := nofun

omit [DecidableEq T] in
theorem Sent.mono (hs : Sent given failed s) (h : failed → failed') : Sent given failed' s :=
  ⟨hs.client, hs.net, hs.received, fun e he => h (hs.error e he),
    fun o ho => (hs.ended o ho).imp_left (fun hf => ⟨h hf.1, hf.2⟩)⟩

theorem client_goto_self (s : State T) (t : T) (pc : ClientPc) : (s.goto t pc).client t = pc :=
  Function.update_self ..

theorem client_goto_of_ne {u : T} (h : u ≠ t) (s : State T) (pc : ClientPc) :
    (s.goto t pc).client u = s.client u :=
  Function.update_of_ne h ..

/-- A client goes on, and what it has sent stays sent. -/
theorem Sent.goto {pc : ClientPc} (hs : Sent given failed s)
    (hpast : ∀ d, Past s t d → Past (s.goto t pc) t d)
    (hpc : ∀ d, pc = .sending d ∨ pc = .printing d → (given t).sent = some d) :
    Sent given failed (s.goto t pc) := by
  have hfrom : ∀ u d, From given s u d → From given (s.goto t pc) u d := by
    intro u d h
    refine ⟨h.1, ?_⟩
    by_cases hut : u = t
    · subst hut
      exact hpast d h.2
    · unfold Past
      rw [client_goto_of_ne hut]
      exact h.2
  refine ⟨fun u d h => ?_, hs.net.mono (fun x hx => hfrom _ _ hx), fun d hd => ?_, hs.error,
    fun o ho => ?_⟩
  · by_cases hut : u = t
    · subst hut
      rw [client_goto_self] at h
      exact hpc d h
    · rw [client_goto_of_ne hut] at h
      exact hs.client u d h
  · obtain ⟨u, hu⟩ := hs.received d hd
    exact ⟨u, hfrom u d hu⟩
  · refine (hs.ended o ho).imp_right (fun hsome => ?_)
    obtain ⟨u, d, hu, hout⟩ := hsome
    exact ⟨u, d, hfrom u d hu, hout⟩

omit [DecidableEq T] in
theorem Sent.setNet {net : Net (T × List UInt8)} (hs : Sent given failed s)
    (hnet : net.All (fun x => From given s x.1 x.2)) : Sent given failed { s with net := net } :=
  ⟨hs.client, hnet, hs.received, hs.error, hs.ended⟩

omit [DecidableEq T] in
theorem past_of_pc {pc : ClientPc} (hpc : s.client t = pc) :
    Past s t d ↔ pc = .printing d ∨ pc = .ended (clientOut d) := by
  rw [Past, hpc]

theorem sent_client {ok : Bool} (hs : Sent given failed s)
    (h : clientStep (given t) t ok s = some s') : Sent given failed s' := by
  unfold clientStep at h
  split at h
  · rename_i hpc
    cases h
    apply hs.goto
    · intro d hd
      rcases (past_of_pc hpc).1 hd with e | e <;> cases e
    · intro d hd
      cases ok <;> rcases hd with e | e <;> cases e
  · rename_i hpc
    have hpast : ∀ pc d, Past s t d → Past (s.goto t pc) t d := by
      intro pc d hd
      rcases (past_of_pc hpc).1 hd with e | e <;> cases e
    split at h
    · cases h
      apply hs.goto (hpast _)
      intro d hd
      rcases hd with e | e <;> cases e
    · rename_i message hsent
      cases h
      apply hs.goto (hpast _)
      intro d hd
      rcases hd with e | e <;> cases e
      exact hsent
  · rename_i message hpc
    cases h
    have hmessage : (given t).sent = some message := hs.client t message (.inl hpc)
    have hs' : Sent given failed (s.goto t (.printing message)) := by
      apply hs.goto
      · intro d hd
        rcases (past_of_pc hpc).1 hd with e | e <;> cases e
      · intro d hd
        rcases hd with e | e <;> cases e
        exact hmessage
    apply hs'.setNet
    cases ok
    · exact hs'.net
    · exact hs'.net.send ⟨hmessage, .inl (client_goto_self ..)⟩
  · rename_i message hpc
    cases h
    apply hs.goto
    · intro d hd
      rcases (past_of_pc hpc).1 hd with e | e <;> cases e
      exact .inr (client_goto_self ..)
    · intro d hd
      rcases hd with e | e <;> cases e
  · cases h

omit [DecidableEq T] in
theorem sent_server {ok : Bool} (hs : Sent given failed s)
    (hfail : ok = false → s.server = .receiving → failed) (h : serverStep ok s = some s') :
    Sent given failed s' := by
  unfold serverStep at h
  split at h
  · cases h
    exact ⟨hs.client, hs.net, by cases ok <;> nofun, by cases ok <;> nofun, by cases ok <;> nofun⟩
  · cases h
    exact ⟨hs.client, hs.net, by cases ok <;> nofun, by cases ok <;> nofun, by cases ok <;> nofun⟩
  · rename_i hpc
    split at h
    · obtain ⟨⟨⟨t, d⟩, net⟩, hr, rfl⟩ := Option.map_eq_some_iff.1 h
      obtain ⟨hfrom, hnet⟩ := hs.net.receive hr
      refine ⟨hs.client, hnet, fun d' hd' => ?_, nofun, nofun⟩
      cases hd'
      exact ⟨t, hfrom⟩
    · rename_i hok
      cases h
      exact ⟨hs.client, hs.net, nofun, fun _ _ => hfail (Bool.eq_false_iff.2 hok) hpc, nofun⟩
  · rename_i arrived hpc
    cases h
    refine ⟨hs.client, hs.net, nofun, nofun, fun o ho => ?_⟩
    cases ho
    cases arrived with
    | error e => exact .inl ⟨hs.error e hpc, ipv4Dgram_error e⟩
    | ok d =>
      obtain ⟨t, hfrom⟩ := hs.received d hpc
      exact .inr ⟨t, d, hfrom, ipv4Dgram_message hfrom.1⟩
  · cases h

theorem sent_next {a : Action T} (hs : Sent given failed s)
    (hfail : a = .server false → s.server = .receiving → failed) (h : next given s a = some s') :
    Sent given failed s' := by
  cases a with
  | client t ok => exact sent_client hs h
  | server ok =>
    apply sent_server hs _ h
    rintro rfl
    exact hfail rfl
  | lose i =>
    obtain ⟨net, hl, rfl⟩ := Option.map_eq_some_iff.1 h
    exact hs.setNet (hs.net.lose hl)
  | arrive i stays =>
    obtain ⟨net, ha, rfl⟩ := Option.map_eq_some_iff.1 h
    exact hs.setNet (hs.net.arrive ha)

theorem sent_run {as : List (Action T)} (hr : Run (next given) Any initial as s) :
    Sent given (RecvFails given as) s := by
  induction hr with
  | nil => exact sent_initial given
  | @snoc u v as a hr _ hn ih =>
    have hmono := ih.mono (fun h => h.snoc a)
    apply sent_next hmono _ hn
    rintro rfl hu
    exact ⟨as, [], u, rfl, hr, hu⟩

/-! ### The end of a run -/

/-- Nothing is doubled. -/
def Single (_ : State T) : Action T → Prop
  | .arrive _ stays => stays = false
  | _ => True

/-- Nothing is doubled, and `recvfrom` does not fail. -/
def Calm (s : State T) : Action T → Prop
  | .arrive _ stays => stays = false
  | .server ok => s.server = .receiving → ok = true
  | _ => True

/-- The steps that are left to a client, with those of its datagram. -/
def ClientPc.left : ClientPc → Nat
  | socket => 6
  | reading => 5
  | sending _ => 4
  | printing _ => 1
  | _ => 0

def ServerPc.left : ServerPc → Nat
  | socket => 4
  | binding => 3
  | receiving => 2
  | printing _ => 1
  | _ => 0

/-- The clients have come to their ends, nothing is on its way, and the server has come to its end
or waits for a datagram. -/
structure Over (s : State T) : Prop where
  clients : ∀ t, (s.client t).left = 0
  flying : s.net.flying = []
  server : s.server.left = 0 ∨ (s.server = .receiving ∧ s.net.arrived = [])

variable [Fintype T]

def State.rank (s : State T) : Nat := ∑ t, (s.client t).left + s.server.left + s.net.left

theorem sum_goto (s : State T) (t : T) (pc : ClientPc) :
    ∑ u, ((s.goto t pc).client u).left + (s.client t).left = ∑ u, (s.client u).left + pc.left := by
  rw [← Finset.add_sum_erase _ _ (Finset.mem_univ t),
    ← Finset.add_sum_erase _ _ (Finset.mem_univ t), client_goto_self]
  have hrest : ∑ u ∈ Finset.univ.erase t, ((s.goto t pc).client u).left =
      ∑ u ∈ Finset.univ.erase t, (s.client u).left := by
    refine Finset.sum_congr rfl (fun u hu => ?_)
    rw [client_goto_of_ne (Finset.ne_of_mem_erase hu)]
  omega

theorem rank_client {ok : Bool} (h : clientStep g t ok s = some s') : s'.rank < s.rank := by
  have hgoto : ∀ pc, (s.goto t pc).rank + (s.client t).left = s.rank + pc.left := by
    intro pc
    have hsum := sum_goto s t pc
    unfold State.rank
    show _ + s.server.left + s.net.left + _ = _
    omega
  unfold clientStep at h
  split at h
  · rename_i hpc
    cases h
    have hrank := hgoto (if ok then .reading else .failed)
    rw [hpc] at hrank
    cases ok <;> simp only [ClientPc.left, Bool.false_eq_true, if_true, if_false] at hrank ⊢ <;>
      omega
  · rename_i hpc
    split at h
    · cases h
      have hrank := hgoto .undefined
      rw [hpc] at hrank
      simp only [ClientPc.left] at hrank
      omega
    · rename_i message hsent
      cases h
      have hrank := hgoto (.sending message)
      rw [hpc] at hrank
      simp only [ClientPc.left] at hrank
      omega
  · rename_i message hpc
    cases h
    have hrank := hgoto (.printing message)
    rw [hpc] at hrank
    simp only [ClientPc.left] at hrank
    have hsend := s.net.left_send (t, message)
    cases ok
    · show (s.goto t (.printing message)).rank < _
      omega
    · unfold State.rank at hrank ⊢
      change _ + s.server.left + s.net.left + 4 = _ at hrank
      show ∑ u, ((s.goto t (.printing message)).client u).left + s.server.left +
        (s.net.send (t, message)).left < _
      omega
  · rename_i message hpc
    cases h
    have hrank := hgoto (.ended (clientOut message))
    rw [hpc] at hrank
    simp only [ClientPc.left] at hrank
    omega
  · cases h

omit [DecidableEq T] in
theorem rank_server {ok : Bool} (h : serverStep ok s = some s') : s'.rank < s.rank := by
  unfold State.rank
  unfold serverStep at h
  split at h
  · rename_i hpc
    cases h
    rw [hpc]
    cases ok <;> simp [ServerPc.left]
  · rename_i hpc
    cases h
    rw [hpc]
    cases ok <;> simp [ServerPc.left]
  · rename_i hpc
    rw [hpc]
    split at h
    · obtain ⟨⟨d, net⟩, hr, rfl⟩ := Option.map_eq_some_iff.1 h
      have hnet := Net.left_receive hr
      simp only [ServerPc.left]
      omega
    · cases h
      simp only [ServerPc.left]
      omega
  · rename_i arrived hpc
    cases h
    rw [hpc]
    simp only [ServerPc.left]
    omega
  · cases h

theorem rank_next {a : Action T} (hok : Single s a) (h : next given s a = some s') :
    s'.rank < s.rank := by
  cases a with
  | client t ok => exact rank_client h
  | server ok => exact rank_server h
  | lose i =>
    obtain ⟨net, hl, rfl⟩ := Option.map_eq_some_iff.1 h
    exact Nat.add_lt_add_left (Net.left_lose hl) _
  | arrive i stays =>
    obtain ⟨net, ha, rfl⟩ := Option.map_eq_some_iff.1 h
    obtain rfl : stays = false := hok
    exact Nat.add_lt_add_left (Net.left_arrive ha) _

omit [Fintype T] in
theorem over_of_stuck (hstuck : ∀ a, Calm s a → next given s a = none) : Over s := by
  refine ⟨fun t => ?_, ?_, ?_⟩
  · have hgo := hstuck (.client t true) trivial
    cases hpc : s.client t with
    | reading =>
      simp only [next, clientStep, hpc] at hgo
      split at hgo <;> cases hgo
    | socket | sending | printing =>
      simp only [next, clientStep, hpc] at hgo
      cases hgo
    | ended | failed | undefined => rfl
  · by_contra hne
    have hgo := hstuck (.lose 0) trivial
    simp only [next, Net.lose, if_pos (List.length_pos_iff.2 hne)] at hgo
    cases hgo
  · have hgo := hstuck (.server true) (fun _ => rfl)
    cases hpc : s.server with
    | receiving =>
      right
      simp only [next, serverStep, hpc, if_true, Option.map_eq_none_iff, Net.receive] at hgo
      split at hgo
      · rename_i harr
        exact ⟨rfl, harr⟩
      · cases hgo
    | socket | binding | printing =>
      simp only [next, serverStep, hpc] at hgo
      cases hgo
    | ended | failed => exact .inl rfl

omit [Fintype T] in
/-- **Somebody can go on** until all have come to their ends, if only by a `recvfrom` that fails. -/
theorem exists_single (hnot : ¬ (Over s ∧ s.server.left = 0)) :
    ∃ a s', Single s a ∧ next given s a = some s' := by
  by_contra hgo
  have hstuck : ∀ a, Single s a → next given s a = none := by
    intro a ha
    rw [Option.eq_none_iff_forall_ne_some]
    exact fun s' h => hgo ⟨a, s', ha, h⟩
  have hover : Over s := by
    refine over_of_stuck (fun a ha => (hstuck a ?_ : next given s a = none))
    cases a with
    | arrive => exact ha
    | client | server | lose => exact trivial
  obtain hleft | ⟨hpc, -⟩ := hover.server
  · exact hnot ⟨hover, hleft⟩
  · have hfails := hstuck (.server false) trivial
    simp only [next, serverStep, hpc] at hfails
    cases hfails

theorem progress (given : T → Given) :
    Progress (next given) Single (fun _ => True) (fun s => Over s ∧ s.server.left = 0)
      State.rank :=
  ⟨fun _ _ _ _ _ _ => trivial, fun _ _ _ _ hok h => rank_next hok h,
    fun _ _ hnot => exists_single hnot⟩

/-! ### The main result -/

/-- The inputs of two clients. -/
def twoInputs (t : Bool) : Given :=
  { input := if t then text "hi" ++ newline :: [] else text "you" ++ newline :: []
    message := fun _ => 255 }

/-- The second line is doubled and comes first. -/
def secondFirst : List (Action Bool) :=
  [.client true true, .client false true, .server true, .server true, .client true true,
    .client false true, .client true true, .client false true, .arrive 1 true, .arrive 0 false,
    .server true, .server true, .client false true]

end EmbeddedLinux.IpcSocket.Ipv4Dgram
