import EmbeddedLinux.Ipv4Stream.Line
import EmbeddedLinux.Lib.Buffer

/-!
# What the four socket servers print

Each server receives once into an array of 1024 bytes and prints the array as a string.  Two of them
receive up to 1024 bytes and so have no room for a NUL of their own; the other two leave the last
byte free and store a NUL in it.  Three clear the array before, and one does not.

What has been received is all that is printed if there is a NUL in it, or directly
behind it (`printString_eq_iff`).  Only the server on a UNIX stream sees to that in all
cases (`prints_received_iff`).

The servers are modelled from the receive call on.
-/

namespace EmbeddedLinux.IpcSocket

open CString Stdio

/-- `sizeof(buffer)`, in all four servers -/
abbrev bufferSize : Nat := 1024

/-- What is printed to `stdout` and to `stderr`, and what `main` returns. -/
structure Outcome where
  out : List UInt8
  err : List UInt8
  status : Nat
  deriving DecidableEq

/-- What the receive call brings: the bytes that have arrived, or what `perror` says when it
fails. -/
abbrev Arrived := Except (List UInt8) (List UInt8)

/-- `printf("Server received: %s\\n", buffer)`.  Without a NUL in `buffer` the `%s` runs over its
end. -/
def printString (buffer : List UInt8) : Option (List UInt8) :=
  if 0 ∈ buffer then some (text "Server received: " ++ cstr buffer ++ text "\n") else none

/-- `char buffer[1024] = {0};` -/
def zeroed : List UInt8 := List.replicate bufferSize 0

/-- `char buffer[1024];` -/
def uninitialised (init : Fin bufferSize → UInt8) : List UInt8 := List.ofFn init

/-- The receive call for at most `n` bytes; the rest of what has arrived is cut off. -/
def receive (buffer : List UInt8) (n : Nat) (data : List UInt8) : Option (List UInt8) :=
  Buffer.copyIn buffer (data.take n)

/-- The output, and `return 0;`. -/
def finish (buffer : List UInt8) : Option Outcome :=
  (printString buffer).map (fun out => { out := out, err := [], status := 0 })

/-! ### The servers -/

/-- Up to `bufferSize` bytes are received, and an error is not looked at. -/
def ipv4Server (arrived : Arrived) : Option Outcome := do
  let buffer ← match arrived with
    | .ok data => receive zeroed bufferSize data
    | .error _ => some zeroed
  finish buffer

/-- `main` of `ipv4-stream/server.c`, from `read` on. -/
def ipv4Stream : Arrived → Option Outcome := ipv4Server

/-- `main` of `ipv4-dgram/server.c`, from `recvfrom` on. -/
def ipv4Dgram : Arrived → Option Outcome := ipv4Server

/-- At most `bufferSize - 1` bytes are received, and a NUL is stored in the last one. -/
def unixServer (buffer : List UInt8) (data : List UInt8) : Option Outcome := do
  let buffer ← receive buffer (bufferSize - 1) data
  let buffer ← Buffer.store buffer ((bufferSize - 1 : Nat) : Int) 0
  finish buffer

/-- `main` of `unix-dgram/server.c`, from `recvfrom` on. -/
def unixDgram (init : Fin bufferSize → UInt8) : Arrived → Option Outcome
  | .ok data => unixServer (uninitialised init) data
  | .error e => some { out := [], err := text "recvfrom: " ++ e ++ text "\n", status := 1 }

/-- `main` of `unix-stream/server.c`, from `read` on. -/
def unixStream : Arrived → Option Outcome
  | .ok data => unixServer zeroed data
  | .error e => some { out := [], err := text "read failed: " ++ e ++ text "\n", status := 0 }

/-! ### A string in its array -/

variable {data d rest : List UInt8}

/-- The line that a server prints for the string `s`. -/
def line (s : List UInt8) : List UInt8 := text "Server received: " ++ s ++ text "\n"

/-- **When no more is printed than was received.** -/
theorem printString_eq_iff :
    printString (d ++ rest) = some (line (cstr d)) ↔ 0 ∈ d ∨ rest.head? = some 0 := by
  constructor
  · intro h
    by_contra hnot
    rw [not_or] at hnot
    obtain ⟨hd, hrest⟩ := hnot
    unfold printString line at h
    split at h
    · rename_i h0
      rw [Option.some_inj, List.append_left_inj, List.append_right_inj, cstr_append hd,
        cstr_of_zero_notMem hd, List.append_right_eq_self] at h
      cases rest with
      | nil => exact hd (by simpa using h0)
      | cons x rest =>
        have hx : x ≠ 0 := fun e => hrest (congrArg some e)
        rw [cstr_cons hx] at h
        cases h
    · cases h
  · intro h
    have hcut : 0 ∈ d ++ rest ∧ cstr (d ++ rest) = cstr d := by
      rcases h with h | h
      · obtain ⟨z, hz⟩ := (cstr_split d).resolve_left (fun h0 => h0 h)
        refine ⟨List.mem_append_left _ h, ?_⟩
        conv_lhs => rw [hz, List.append_assoc, List.cons_append, cstr_append_zero]
        exact cstr_of_zero_notMem (zero_notMem_cstr d)
      · obtain ⟨r, rfl⟩ := List.head?_eq_some_iff.1 h
        exact ⟨by simp, cstr_append_zero d r⟩
    rw [printString, if_pos hcut.1, hcut.2]
    rfl

theorem receive_eq (data : List UInt8) {buffer : List UInt8} {n : Nat} (hn : n ≤ buffer.length) :
    receive buffer n data = some (data.take n ++ buffer.drop (data.take n).length) :=
  Buffer.copyIn_of_le ((List.length_take_le n data).trans hn)

/-! ### What the servers print -/

/-- A server prints what it has received, up to a NUL, and ends. -/
def Prints (o : Option Outcome) (received : List UInt8) : Prop :=
  o = some { out := line (cstr received), err := [], status := 0 }

theorem prints_finish_iff :
    Prints (finish (d ++ rest)) d ↔ 0 ∈ d ∨ rest.head? = some 0 := by
  rw [← printString_eq_iff, finish, Prints]
  cases printString (d ++ rest) <;> simp

/-- The servers that leave no room for a NUL. -/
theorem ipv4Server_prints_iff : Prints (ipv4Server (.ok data)) (data.take bufferSize) ↔
    data.length < bufferSize ∨ 0 ∈ data.take bufferSize := by
  have hserver : ipv4Server (.ok data) =
      finish (data.take bufferSize ++ zeroed.drop (data.take bufferSize).length) := by
    unfold ipv4Server
    simp only
    rw [receive_eq data (by simp [zeroed])]
    rfl
  have hhead : (zeroed.drop (data.take bufferSize).length).head? = some 0 ↔
      data.length < bufferSize := by
    rw [zeroed, List.drop_replicate, List.head?_replicate, List.length_take]
    simp
    omega
  rw [hserver, prints_finish_iff, hhead, or_comm]

/-- The servers that store a NUL in the last byte. -/
theorem unixServer_prints_iff {buffer : List UInt8} (hlen : buffer.length = bufferSize) :
    Prints (unixServer buffer data) (data.take (bufferSize - 1)) ↔
      bufferSize - 1 ≤ data.length ∨ 0 ∈ data.take (bufferSize - 1) ∨
        buffer[data.length]? = some 0 := by
  let k := min 1023 data.length
  have hk : (data.take (bufferSize - 1)).length = k := List.length_take
  have hle : k ≤ 1023 := Nat.min_le_left ..
  change buffer.length = 1024 at hlen
  have hserver : unixServer buffer data =
      finish (data.take (bufferSize - 1) ++ (buffer.drop k).set (1023 - k) 0) := by
    have hstore : Buffer.store (data.take (bufferSize - 1) ++ buffer.drop k) (1023 : Nat) 0 =
        some (data.take (bufferSize - 1) ++ (buffer.drop k).set (1023 - k) 0) := by
      rw [Buffer.store_of_lt, List.set_append_right _ _ (hk ▸ hle), hk]
      rw [List.length_append, List.length_drop, hk]
      omega
    unfold unixServer
    rw [receive_eq data (by rw [hlen]; decide), hk]
    show (Buffer.store _ ((1023 : Nat) : Int) _).bind finish = _
    rw [hstore]
    rfl
  have hhead : ((buffer.drop k).set (1023 - k) 0).head? = some 0 ↔
      1023 ≤ data.length ∨ buffer[data.length]? = some 0 := by
    rw [List.head?_eq_getElem?, List.getElem?_set, List.getElem?_drop]
    by_cases hfull : 1023 ≤ data.length
    · have hk' : k = 1023 := Nat.min_eq_left hfull
      simp [hk', hlen, hfull]
    · have hk' : k = data.length := Nat.min_eq_right (by omega)
      rw [if_neg (by omega), hk', Nat.add_zero, or_iff_right hfull]
  rw [hserver, prints_finish_iff, hhead, or_left_comm]
  rfl

/-! ### The main result -/

/-- **When the four servers print what they have received**, and nothing else.  The servers on
IPv4: unless they have filled the array without a NUL.  The server on UNIX datagrams: if the NUL it
stores, one that was received or one that was in the array before comes right behind.  The server
on a UNIX stream: always. -/
theorem prints_received_iff (init : Fin bufferSize → UInt8) (data : List UInt8) :
    (Prints (ipv4Stream (.ok data)) (data.take 1024) ↔ data.length < 1024 ∨ 0 ∈ data.take 1024) ∧
    (Prints (ipv4Dgram (.ok data)) (data.take 1024) ↔ data.length < 1024 ∨ 0 ∈ data.take 1024) ∧
    (Prints (unixDgram init (.ok data)) (data.take 1023) ↔
      1023 ≤ data.length ∨ 0 ∈ data.take 1023 ∨
        ∃ h : data.length < bufferSize, init ⟨data.length, h⟩ = 0) ∧
    Prints (unixStream (.ok data)) (data.take 1023) := by
  refine ⟨ipv4Server_prints_iff, ipv4Server_prints_iff, ?_, ?_⟩
  · have hinit : (uninitialised init)[data.length]? = some 0 ↔
        ∃ h : data.length < bufferSize, init ⟨data.length, h⟩ = 0 := by
      rw [uninitialised, List.getElem?_ofFn]
      split
      · rename_i h
        rw [Option.some_inj]
        exact ⟨fun h0 => ⟨h, h0⟩, fun ⟨_, h0⟩ => h0⟩
      · rename_i h
        exact ⟨nofun, fun ⟨h', _⟩ => absurd h' h⟩
    rw [← hinit]
    exact unixServer_prints_iff List.length_ofFn
  · refine (unixServer_prints_iff List.length_replicate).2 ?_
    by_cases hfull : 1023 ≤ data.length
    · exact Or.inl hfull
    · refine Or.inr (Or.inr ?_)
      exact List.getElem?_replicate_of_lt (by show data.length < 1024; omega)

/-- A full array without a NUL, and a short datagram in an array with other bytes. -/
theorem prints_too_much :
    ¬ Prints (ipv4Stream (.ok (List.replicate 1024 65))) ((List.replicate 1024 65).take 1024) ∧
      ¬ Prints (ipv4Dgram (.ok (List.replicate 1024 65))) ((List.replicate 1024 65).take 1024) ∧
        ¬ Prints (unixDgram (fun _ => 66) (.ok (text "hi"))) ((text "hi").take 1023) := by
  have hfull : ¬ Prints (ipv4Server (.ok (List.replicate 1024 65)))
      ((List.replicate 1024 65).take bufferSize) := by
    rw [ipv4Server_prints_iff, List.length_replicate, not_or]
    exact ⟨Nat.lt_irrefl _,
      fun h => absurd (List.eq_of_mem_replicate (List.mem_of_mem_take h)) (by decide)⟩
  refine ⟨hfull, hfull, fun h => ?_⟩
  rcases (unixServer_prints_iff List.length_ofFn).1 h with hlong | hnul | hnext
  · exact absurd hlong (by decide)
  · exact absurd (List.mem_of_mem_take hnul) (by decide)
  · rw [List.getElem?_ofFn, dif_pos (by decide)] at hnext
    cases hnext

end EmbeddedLinux.IpcSocket
