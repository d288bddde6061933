import EmbeddedLinux.Chat.App
import EmbeddedLinux.Lib.Inet

/-!
# An outgoing connection

`chatapp_connect_peer` asks for a socket, reads the address, connects, starts a handler and
registers the peer; each of these may fail, and then it takes back what it has done.  What the
calls return is in `ConnectEnv`.

It tests the address, but neither the port, which is cut to 16 bits for `connect` and kept
whole in the table, nor whether the endpoint is its own.  So what it does is right exactly when the
port is one, the endpoint is another's, and the ID to be given is not -1, or when something else
refuses the connection (`connection_validated_iff`).
-/

namespace EmbeddedLinux.Chat

open CString Inet

/-- What the calls of `chatapp_connect_peer` return. -/
structure ConnectEnv where
  sockfd : Int
  connect : Int
  malloc : Bool
  pthreadCreate : Int
  tid : Tid

/-- The calls with an effect outside of the program. -/
inductive ConnectCall
  | connect (sockfd : Int) (addr : Address) (port : UInt16)
  | close (sockfd : Int)
  | pthreadCreate (sockfd : Int)
  | pthreadCancel (tid : Tid)

structure Connected where
  ret : Int
  app : ChatApp
  calls : List ConnectCall
  out : List UInt8

/-- `htons`, which takes an `uint16_t`: the port that the kernel is given. -/
def htons (port : Int) : UInt16 := UInt16.ofNat (port % 65536).toNat

def chatappConnectPeer (e : ConnectEnv) (app : ChatApp) (ip : List UInt8) (port : Int) :
    Connected :=
  if e.sockfd < 0 then { ret := -1, app := app, calls := [], out := [] }
  else
    match inetPton ip with
    | none =>
      { ret := -1, app := app, calls := [.close e.sockfd], out := text "Invalid IP address\n" }
    | some addr =>
      let connect := .connect e.sockfd addr (htons port)
      if e.connect < 0 then
        { ret := -1, app := app, calls := [connect, .close e.sockfd], out := [] }
      else
        let out := text "[+] Connected to " ++ cstr ip ++ text ":" ++ decimal port ++ text "\n"
        if !e.malloc then
          { ret := -1, app := app, calls := [connect, .close e.sockfd], out := out }
        else if e.pthreadCreate ≠ 0 then
          { ret := -1, app := app, calls := [connect, .close e.sockfd], out := out }
        else
          let r := chatappAddPeer app e.sockfd ip port e.tid
          let calls := [connect, .pthreadCreate e.sockfd]
          if r.ret = -1 then
            { ret := -1
              app := r.app
              calls := calls ++ [.close e.sockfd, .pthreadCancel e.tid]
              out := out ++ r.out ++ text "[-] Connection list full.\n" }
          else
            { ret := r.ret
              app := r.app
              calls := calls
              out := out ++ r.out ++ text "[ID " ++ decimal r.ret ++
                text "] Connection established.\n" }

/-! ### What is asked of it -/

/-- The machine: which addresses are its own, and the port the kernel has chosen for the listener
when it was asked for port 0. -/
structure Host where
  isLocal : Address → Bool
  ephemeral : UInt16

/-- The port of the listener, which is bound to all addresses of the machine. -/
def Host.listenPort (h : Host) (app : ChatApp) : UInt16 :=
  if htons app.serverPort = 0 then h.ephemeral else htons app.serverPort

/-- The application's own listening endpoint. -/
def Host.Own (h : Host) (app : ChatApp) (addr : Address) (port : Int) : Prop :=
  h.isLocal addr = true ∧ htons port = h.listenPort app

/-- The endpoint is a valid one of another, and it is the one that a new slot shows. -/
def Connected.Registers (r : Connected) (h : Host) (app : ChatApp) (ip : List UInt8) (port : Int) :
    Prop :=
  (∃ addr, inetPton ip = some addr ∧ 1 ≤ port ∧ port ≤ 65535 ∧ ¬ h.Own app addr port) ∧
    r.ret ≠ -1 ∧ ∃ i, (app.peers i).active = false ∧ (r.app.peers i).active = true ∧
      (r.app.peers i).id = r.ret ∧ ∃ sockfd addr p, .connect sockfd addr p ∈ r.calls ∧
        inetPton (List.ofFn (r.app.peers i).ip) = some addr ∧ (r.app.peers i).port = p.toNat

def Connected.Refuses (r : Connected) (app : ChatApp) : Prop :=
  r.ret = -1 ∧ r.app.peers = app.peers ∧ r.app.nextPeerId = app.nextPeerId

/-- No call fails, the ID limit is not reached and there is a free slot. -/
structure Succeeds (e : ConnectEnv) (app : ChatApp) : Prop where
  socket : 0 ≤ e.sockfd
  connect : 0 ≤ e.connect
  malloc : e.malloc = true
  pthreadCreate : e.pthreadCreate = 0
  limit : app.nextPeerId < intMax
  slot : ∃ i, (app.peers i).active = false

/-! ### What it does -/

variable {e : ConnectEnv} {app : ChatApp} {ip : List UInt8} {port : Int} {h : Host}

/-- Where something fails, it refuses. -/
theorem connect_refuses (port : Int) (hfail : ¬ (Succeeds e app ∧ (inetPton ip).isSome)) :
    (chatappConnectPeer e app ip port).ret = -1 ∧
      (chatappConnectPeer e app ip port).app = app := by
  unfold chatappConnectPeer
  split
  · exact ⟨rfl, rfl⟩
  · rename_i hsocket
    split
    · exact ⟨rfl, rfl⟩
    · rename_i addr hip
      simp only
      split
      · exact ⟨rfl, rfl⟩
      · rename_i hconnect
        split
        · exact ⟨rfl, rfl⟩
        · rename_i hmalloc
          split
          · exact ⟨rfl, rfl⟩
          · rename_i hcreate
            obtain ⟨hret, happ, -⟩ | ⟨i, hlimit, hslot, -⟩ :=
              chatappAddPeer_cases app e.sockfd ip port e.tid
            · rw [if_pos hret]
              exact ⟨rfl, happ⟩
            · refine absurd ⟨⟨?_, ?_, ?_, ?_, hlimit, i, hslot⟩, ?_⟩ hfail
              · omega
              · omega
              · simpa using hmalloc
              · omega
              · rw [hip]
                rfl

/-- Where nothing fails, the first free slot is taken, whatever the port is. -/
theorem connect_registers (port : Int) (hok : Succeeds e app) {addr : Address}
    (hip : inetPton ip = some addr) :
    ∃ i, (app.peers i).active = false ∧
      (chatappConnectPeer e app ip port).ret = app.nextPeerId ∧
      (chatappConnectPeer e app ip port).app =
        { app.setPeer i (peerSet (app.peers i) app.nextPeerId e.sockfd ip port e.tid) with
          nextPeerId := app.nextPeerId + 1 } ∧
      .connect e.sockfd addr (htons port) ∈ (chatappConnectPeer e app ip port).calls := by
  obtain ⟨hsocket, hconnect, hmalloc, hcreate, hlimit, k, hk⟩ := hok
  obtain ⟨-, -, hfull | hfull⟩ | ⟨i, -, hslot, -, hret, happ⟩ :=
    chatappAddPeer_cases app e.sockfd ip port e.tid
  · omega
  · rw [hfull k] at hk
    cases hk
  · refine ⟨i, hslot, ?_⟩
    unfold chatappConnectPeer
    rw [if_neg (by omega), hip]
    simp only
    rw [if_neg (by omega), if_neg (by simp [hmalloc]), if_neg (by simp [hcreate])]
    split
    · rename_i hlast
      exact ⟨hlast.symm.trans hret, happ, List.mem_append_left _ List.mem_cons_self⟩
    · exact ⟨hret, happ, List.mem_cons_self⟩

/-- An address that is valid is kept whole. -/
theorem inetPton_peerSet {addr : Address} (hip : inetPton ip = some addr) (p : Peer)
    (id sockfd : Int) (tid : Tid) :
    inetPton (List.ofFn (peerSet p id sockfd ip port tid).ip) = some addr := by
  have hlen := length_of_inetPton hip
  have hcstr : cstr (List.ofFn (peerSet p id sockfd ip port tid).ip) = cstr ip :=
    (cstr_strncpy 15 ip).trans (List.take_of_length_le hlen)
  unfold inetPton at hip ⊢
  rw [hcstr]
  exact hip

/-- A port is not cut. -/
theorem toNat_htons (h1 : 1 ≤ port) (h2 : port ≤ 65535) : (htons port).toNat = port := by
  unfold htons
  rw [UInt16.toNat_ofNat', Int.emod_eq_of_lt (by omega) (by omega)]
  omega

/-! ### The main result -/

/-- **When an outgoing connection is validated and recorded truthfully.**  Where no call fails, the
address is valid and there is room in the table, the port has to be one, the endpoint another's
and the next ID not -1; everywhere else the connection is refused, and nothing changes. -/
theorem connection_validated_iff (h : Host) (e : ConnectEnv) (app : ChatApp) (ip : List UInt8)
    (port : Int) :
    (chatappConnectPeer e app ip port).Registers h app ip port ∨
        (chatappConnectPeer e app ip port).Refuses app ↔
      ∀ addr, inetPton ip = some addr → Succeeds e app →
        1 ≤ port ∧ port ≤ 65535 ∧ ¬ h.Own app addr port ∧ app.nextPeerId ≠ -1 := by
  constructor
  · intro hP addr hip hok
    obtain ⟨i, -, hret, happ, -⟩ := connect_registers port hok hip
    rcases hP with ⟨⟨addr', hip', h1, h2, hown⟩, hne, -⟩ | ⟨-, -, hnext⟩
    · rw [hip] at hip'
      cases hip'
      exact ⟨h1, h2, hown, hret ▸ hne⟩
    · rw [happ] at hnext
      simp only at hnext
      omega
  · intro hcond
    by_cases hgo : Succeeds e app ∧ (inetPton ip).isSome
    · obtain ⟨hok, hsome⟩ := hgo
      obtain ⟨addr, hip⟩ := Option.isSome_iff_exists.1 hsome
      obtain ⟨h1, h2, hown, hid⟩ := hcond addr hip hok
      obtain ⟨i, hslot, hret, happ, hcall⟩ := connect_registers port hok hip
      have hpeer : (chatappConnectPeer e app ip port).app.peers i =
          peerSet (app.peers i) app.nextPeerId e.sockfd ip port e.tid := by
        rw [happ]
        exact (ChatApp.setPeer_peers ..).trans (if_pos rfl)
      refine Or.inl ⟨⟨addr, hip, h1, h2, hown⟩, hret ▸ hid, i, hslot, ?_, ?_, e.sockfd, addr,
        htons port, hcall, ?_, ?_⟩
      · rw [hpeer]
        rfl
      · rw [hpeer, hret]
        rfl
      · rw [hpeer]
        exact inetPton_peerSet hip ..
      · rw [hpeer, toNat_htons h1 h2]
        rfl
    · obtain ⟨hret, happ⟩ := connect_refuses port hgo
      exact Or.inr ⟨hret, by rw [happ], by rw [happ]⟩

/-- Calls that all succeed, and a machine without addresses. -/
def goodCalls : ConnectEnv where
  sockfd := 4
  connect := 0
  malloc := true
  pthreadCreate := 0
  tid := 1

def otherHost : Host where
  isLocal _ := false
  ephemeral := 0

/-- Port 70000: the connection goes to port 4464. -/
theorem port_cut_off :
    let app := chatappSetup 4000 3
    let r := chatappConnectPeer goodCalls app (text "127.0.0.1") 70000
    ¬ (r.Registers otherHost app (text "127.0.0.1") 70000 ∨ r.Refuses app) := by
  have hone : (chatappConnectPeer goodCalls (chatappSetup 4000 3) (text "127.0.0.1") 70000).ret =
      1 := by decide
  intro app r hP
  rcases hP with ⟨⟨addr, -, -, h2, -⟩, -⟩ | ⟨hret, -⟩
  · omega
  · rw [hone] at hret
    cases hret

end EmbeddedLinux.Chat
