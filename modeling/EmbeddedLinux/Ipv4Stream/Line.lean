import EmbeddedLinux.Lib.Stdio

/-!
# A line from the TCP client to the TCP server

The client reads a line, cuts it at the newline and sends it, and closes the connection.  The server
reads once and prints what it has got.  The stream brings the bytes in order, but cut
into segments anywhere, and `read` returns what the first of them has brought: so the server
prints the line exactly when that was all of it (`line_arrives_whole_iff`).

Both programs are modelled from the moment the connection stands.
-/

namespace EmbeddedLinux.Ipv4Stream

open CString Stdio

/-- `BUFFER_SIZE` -/
abbrev bufferSize : Nat := 1024

/-! ### The client -/

/-- What the client hands to `send`, and what it prints. -/
structure Client where
  data : List UInt8
  out : List UInt8

/-- `main` of the client.  When `fgets` returns NULL, `message` has no value. -/
def clientMain (input : List UInt8) : Option Client :=
  match fgets bufferSize input with
  | none => none
  | some (line, _) =>
    let message := cstr (cutNewline line)
    some
      { data := message
        out := text "Enter message to send: " ++ text "Client sent: " ++ message ++ text "\n" }

/-- A line that fits is sent without its newline. -/
theorem clientMain_line {body : List UInt8} (hnl : newline ∉ body) (h0 : 0 ∉ body)
    (hlen : body.length ≤ 1022) (rest : List UInt8) :
    ∃ c, clientMain (body ++ newline :: rest) = some c ∧ c.data = body := by
  have hfgets := fgets_line (n := bufferSize) hnl
    (by show body.length + 1 < 1024; omega) rest
  have hcut : cstr (cutNewline (body ++ [newline])) = body := by
    rw [cutNewline_line hnl h0, cstr_append_zero, cstr_of_zero_notMem h0]
  unfold clientMain
  rw [hfgets]
  exact ⟨_, rfl, hcut⟩

/-! ### The server -/

/-- `read(client_fd, buffer, sizeof(buffer))`: the segments that have not been read bring the
first of them, as far as it fits, and at the end of the stream nothing. -/
def readFirst (segments : List (List UInt8)) : List UInt8 := (segments.headD []).take bufferSize

/-- `char buffer[BUFFER_SIZE] = {0};` after `read`. -/
def fillBuffer (data : List UInt8) : Fin bufferSize → UInt8 := fun i => data.getD i 0

/-- What the server prints once it has read.  Without a NUL in `buffer` the `%s` runs over its
end. -/
def serverMain (segments : List (List UInt8)) : Option (List UInt8) :=
  let buffer := List.ofFn (fillBuffer (readFirst segments))
  if 0 ∈ buffer then some (text "Server received: " ++ cstr buffer ++ text "\n") else none

/-- What has been read is what is printed, if it leaves room for a NUL. -/
theorem serverMain_eq {segments : List (List UInt8)} (h0 : 0 ∉ segments.headD [])
    (hlen : (segments.headD []).length < bufferSize) :
    serverMain segments =
      some (text "Server received: " ++ segments.headD [] ++ text "\n") := by
  have hread : readFirst segments = segments.headD [] :=
    List.take_of_length_le (Nat.le_of_lt hlen)
  have hend : fillBuffer (segments.headD []) ⟨(segments.headD []).length, hlen⟩ = 0 := by
    show (segments.headD []).getD (segments.headD []).length 0 = 0
    rw [List.getD_eq_getElem?_getD, List.getElem?_eq_none (Nat.le_refl _)]
    rfl
  have hcstr : cstr (List.ofFn (fillBuffer (segments.headD []))) = segments.headD [] :=
    cstr_ofFn h0 hlen (fun i hi => (List.getElem_eq_getD 0).symm) hend
  have hnul : 0 ∈ List.ofFn (fillBuffer (segments.headD [])) :=
    List.mem_ofFn.2 ⟨_, hend⟩
  simp only [serverMain, hread]
  rw [if_pos hnul, hcstr]

/-! ### The main result -/

/-- The first segment is all of the line only if it is the only one. -/
theorem headD_eq_flatten_iff {segments : List (List UInt8)} (hne : ∀ s ∈ segments, s ≠ [])
    (hpos : segments.flatten ≠ []) :
    segments.headD [] = segments.flatten ↔ segments.length = 1 := by
  cases segments with
  | nil => exact absurd rfl hpos
  | cons s segments =>
    rw [List.headD_cons, List.flatten_cons, List.length_cons, List.self_eq_append_right]
    cases segments with
    | nil => exact ⟨fun _ => rfl, fun _ => rfl⟩
    | cons s' segments =>
      rw [List.flatten_cons, List.append_eq_nil_iff, List.length_cons]
      constructor
      · intro h
        exact absurd h.1 (hne s' (List.mem_cons_of_mem _ List.mem_cons_self))
      · intro h
        omega

/-- **When a line arrives whole.**  The client sends the line, and the server prints it exactly
when the stream brings it in one segment. -/
theorem line_arrives_whole_iff {body rest : List UInt8} (hnl : newline ∉ body) (h0 : 0 ∉ body)
    (hpos : 1 ≤ body.length) (hlen : body.length ≤ 1022) :
    ∃ c, clientMain (body ++ newline :: rest) = some c ∧ ∀ segments : List (List UInt8),
      segments.flatten = c.data → (∀ s ∈ segments, s ≠ []) →
        (serverMain segments = some (text "Server received: " ++ body ++ text "\n") ↔
          segments.length = 1) := by
  obtain ⟨c, hc, hdata⟩ := clientMain_line hnl h0 hlen rest
  refine ⟨c, hc, fun segments hflat hne => ?_⟩
  rw [hdata] at hflat
  have hfront : segments.headD [] <+: body := by
    rw [← hflat]
    cases segments with
    | nil => exact List.nil_prefix
    | cons s segments => exact List.prefix_append s _
  have hprint := serverMain_eq (fun h => h0 (hfront.subset h))
    (Nat.lt_of_le_of_lt hfront.length_le (by show body.length < 1024; omega))
  have hiff := headD_eq_flatten_iff hne
    (by rw [hflat]; exact List.ne_nil_of_length_pos hpos)
  rw [hprint, Option.some_inj, List.append_left_inj, List.append_right_inj, ← hiff, hflat]

/-- A line in one segment. -/
theorem line_arrives_whole_hello : ∃ c, clientMain (text "hello" ++ newline :: []) = some c ∧
    [text "hello"].flatten = c.data ∧
      serverMain [text "hello"] = some (text "Server received: " ++ text "hello" ++ text "\n") := by
  obtain ⟨c, hc, hiff⟩ := @line_arrives_whole_iff (text "hello") [] (by decide) (by decide)
    (by decide) (by decide)
  cases hc
  exact ⟨_, rfl, rfl, (hiff [text "hello"] rfl (by decide)).2 rfl⟩

/-- A line in two segments, of which the server prints the first. -/
theorem line_cut_off : ∃ c, clientMain (text "hello" ++ newline :: []) = some c ∧
    [text "hel", text "lo"].flatten = c.data ∧
      serverMain [text "hel", text "lo"] = some (text "Server received: hel\n") ∧
        serverMain [text "hel", text "lo"] ≠
          some (text "Server received: " ++ text "hello" ++ text "\n") := by
  have hprint : serverMain [text "hel", text "lo"] = some (text "Server received: hel\n") :=
    serverMain_eq (by decide) (by decide)
  refine ⟨_, rfl, rfl, hprint, ?_⟩
  rw [hprint]
  decide

end EmbeddedLinux.Ipv4Stream
