import EmbeddedLinux.Lib.Lines
import EmbeddedLinux.Lib.Stdio
import EmbeddedLinux.Lib.Transition
import EmbeddedLinux.SignalInput.Messages

/-!
# Lines that wait in the buffer of stdio

`main` waits in `select` for bytes on standard input or in the pipe, and takes its input
with `fgets`.  The two do not look at the same place: `select` sees the bytes that have
not been read, and `fgets` reads all of them at once and hands out one line.  What is left is in the
buffer of stdio, and `select` does not know of it.

Chunks arrive on standard input at any time, and signals make the signal thread write into
the pipe.  Everything else is a step of `main`, which is determined by the state.  `read`,
`handed` and `printed` keep what has been read, how many of these bytes `fgets` has handed
out, and what `printf` has shown and where in the input that was; no step reads them.

No line waits as long as every read gives `fgets` no more than the line it needs
(`nothing_waits`), and every read that gives it a line too many can leave that waiting
(`careless_read`).
-/

namespace EmbeddedLinux.SignalInput

open CString Transition Lines
open Stdio (newline takeLine takeLine_append takeLine_cases)

/-- `sizeof(buffer)` -/
abbrev lineSize : Nat := 1024

/-- Where `main` is in its loop. -/
inductive Pc
  | select
  /-- in `fgets`, with what it has got so far, and whether the pipe was readable -/
  | fgets (got : List UInt8) (pipeReady : Bool)
  | readPipe
  /-- behind the loop -/
  | left

structure State where
  /-- bytes on standard input that have not been read -/
  kernel : List UInt8
  /-- the input has been closed -/
  eof : Bool
  pipe : List UInt8
  /-- the signal thread is running -/
  signalling : Bool
  /-- the buffer of stdio -/
  buffer : List UInt8
  pc : Pc
  read : List UInt8
  handed : Nat
  printed : List (Line UInt8)

def initial : State where
  kernel := []
  eof := false
  pipe := []
  signalling := true
  buffer := []
  pc := .select
  read := []
  handed := 0
  printed := []

def State.arrived (s : State) : List UInt8 := s.read ++ s.kernel

/-! ### The steps of `main` -/

/-- What `fgets` has, with what it takes of the buffer. -/
def State.line (s : State) (got : List UInt8) : List UInt8 :=
  got ++ (takeLine (lineSize - 1 - got.length) s.buffer).1

/-- `fgets` needs no more. -/
def Enough (line : List UInt8) : Prop := newline ∈ line ∨ line.length = lineSize - 1

instance (line : List UInt8) : Decidable (Enough line) :=
  inferInstanceAs (Decidable (newline ∈ line ∨ line.length = lineSize - 1))

def afterInput (pipeReady : Bool) : Pc := if pipeReady then .readPipe else .select

/-- `fgets` returns, and `printf("User input: %s", buffer)`. -/
def State.handOut (s : State) (line rest : List UInt8) (pipeReady : Bool) : State :=
  { s with
    buffer := rest
    handed := s.handed + line.length
    printed := s.printed ++ [{ start := s.handed, elems := cstr line }]
    pc := afterInput pipeReady }

/-- `fgets` reads all that there is. -/
def State.refill (s : State) (line : List UInt8) (pipeReady : Bool) : State :=
  { s with
    buffer := s.kernel
    kernel := []
    read := s.read ++ s.kernel
    pc := .fgets line pipeReady }

def fgetsStep (s : State) (got : List UInt8) (pipeReady : Bool) : Option State :=
  if Enough (s.line got) then
    some (s.handOut (s.line got) (takeLine (lineSize - 1 - got.length) s.buffer).2 pipeReady)
  else if s.kernel ≠ [] then some (s.refill (s.line got) pipeReady)
  else if s.eof then
    some (if s.line got = [] then { s with buffer := [], pc := afterInput pipeReady }
      else s.handOut (s.line got) [] pipeReady)
  else none

/-- A step of `main`, or `none` where it waits. -/
def mainStep (s : State) : Option State :=
  match s.pc with
  | .select =>
    if s.kernel ≠ [] ∨ s.eof then some { s with pc := .fgets [] (s.pipe ≠ []) }
    else if s.pipe ≠ [] then some { s with pc := .readPipe }
    else none
  | .fgets got pipeReady => fgetsStep s got pipeReady
  | .readPipe =>
    if s.pipe = [] then none
    else
      let msg := msgArray (s.pipe.take msgSize)
      let pc := if strstr msg Sig.sigint.word then Pc.select
        else if strstr msg Sig.sigterm.word then Pc.left
        else Pc.select
      some { s with pipe := s.pipe.drop msgSize, pc := pc }
  | .left => none

inductive Action
  | arrive (chunk : List UInt8)
  | close
  | signal (sig : Sig)
  | main
  /-- `select` returns -1 -/
  | selectFails

def step (s : State) : Action → Option State
  | .arrive chunk => if s.eof then none else some { s with kernel := s.kernel ++ chunk }
  | .close => some { s with eof := true }
  | .signal sig =>
    if s.signalling then
      some { s with
        pipe := s.pipe ++ sig.msg
        signalling := match sig with | .sigint => true | .sigterm => false }
    else none
  | .main => mainStep s
  | .selectFails =>
    match s.pc with
    | .select => some { s with pc := .left }
    | _ => none

/-- `main` is about to wait in `select`. -/
def Blocks (s : State) : Prop := s.pc = .select ∧ s.kernel = [] ∧ s.eof = false ∧ s.pipe = []

/-- A line, with its newline, that fits into `buffer`. -/
def Fits (l : Line UInt8) : Prop := l.elems.length ≤ lineSize - 1

instance (l : Line UInt8) : Decidable (Fits l) :=
  inferInstanceAs (Decidable (l.elems.length ≤ lineSize - 1))

/-- Every complete line that fits starts before the first `n` bytes are over. -/
def NoneBehind (s : List UInt8) (n : Nat) : Prop :=
  ∀ l ∈ completeLines newline s, Fits l → l.start < n

instance (s : List UInt8) (n : Nat) : Decidable (NoneBehind s n) :=
  inferInstanceAs (Decidable (∀ l ∈ completeLines newline s, Fits l → l.start < n))

/-- How many bytes `fgets` will have handed out, if it takes what is next in `next`. -/
def State.upTo (s : State) (line next : List UInt8) : Nat :=
  s.handed + line.length + (takeLine (lineSize - 1 - line.length) next).1.length

/-- A read by `fgets` leaves no line behind the bytes that it takes. -/
def ReadOk (s : State) : Pc → Prop
  | .fgets got _ => ¬ Enough (s.line got) → s.eof = false →
      NoneBehind s.arrived (s.upTo (s.line got) s.kernel)
  | _ => True

instance (s : State) : ∀ pc, Decidable (ReadOk s pc)
  | .fgets got _ => inferInstanceAs (Decidable (¬ Enough (s.line got) → s.eof = false →
      NoneBehind s.arrived (s.upTo (s.line got) s.kernel)))
  | .select | .readPipe | .left => .isTrue trivial

def Careful (s : State) : Action → Prop
  | .main => ReadOk s s.pc
  | _ => True

instance (s : State) : ∀ a, Decidable (Careful s a)
  | .main => inferInstanceAs (Decidable (ReadOk s s.pc))
  | .arrive _ | .close | .signal _ | .selectFails => .isTrue trivial

/-! ### The invariant -/

/-- What `fgets` has got so far, if it is being carried out. -/
def Pc.got : Pc → List UInt8
  | .fgets got _ => got
  | _ => []

/-- The read end of the pipe is going to be read. -/
def Pc.pipeReady : Pc → Bool
  | .fgets _ pipeReady => pipeReady
  | .readPipe => true
  | _ => false

/-- How the bytes that have been read lie in their lines: some lines are finished, and `cur` of the
next one has been handed out, which is so long that it does not fit. -/
structure Place (s : State) (fin : List (Line UInt8)) (start : Nat) (cur : List UInt8) : Prop where
  lines : ∀ more, completeLines newline (s.read ++ more) =
    fin ++ linesFrom newline start (cur ++ s.pc.got) (s.buffer ++ more)
  printed : ∀ l ∈ fin, Fits l → { l with elems := cstr l.elems } ∈ s.printed
  handed : start + cur.length = s.handed
  long : cur = [] ∨ lineSize - 1 ≤ cur.length
  clean : newline ∉ cur

structure Inv (s : State) : Prop where
  place : s.eof = false → ∃ fin start cur, Place s fin start cur
  got : newline ∉ s.pc.got ∧ s.pc.got.length < lineSize - 1
  count : s.read.length = s.handed + s.pc.got.length + s.buffer.length
  shown : ∀ l ∈ s.printed, 0 ∉ l.elems
  before : ∀ l ∈ s.printed, l.start < s.handed
  pipe : s.pc.pipeReady = true → s.pipe ≠ []

theorem inv_initial : Inv initial := by
  refine ⟨fun _ => ⟨[], 0, [], fun _ => rfl, ?_, rfl, Or.inl rfl, List.not_mem_nil⟩,
    ⟨List.not_mem_nil, by decide⟩, rfl, ?_, ?_, fun h => (by cases h)⟩
  · intro l hl
    cases hl
  · intro l hl
    cases hl
  · intro l hl
    cases hl

/-! ### The steps keep the invariant -/

variable {s t : State} {got rest : List UInt8} {pipeReady : Bool}

theorem got_afterInput (pipeReady : Bool) : (afterInput pipeReady).got = [] := by
  cases pipeReady <;> rfl

theorem pipeReady_afterInput (pipeReady : Bool) : (afterInput pipeReady).pipeReady = pipeReady := by
  cases pipeReady <;> rfl

/-- `fgets` has taken a line, a full array, or all of the buffer. -/
theorem line_cases (s : State) {got : List UInt8} (hgot : got.length < lineSize - 1)
    (hnl : newline ∉ got) :
    (∃ body, newline ∉ body ∧ s.line got = body ++ [newline] ∧ body.length < lineSize - 1) ∨
      newline ∉ s.line got ∧ s.line got ≠ [] ∧ (s.line got).length = lineSize - 1 ∨
      newline ∉ s.line got ∧ (s.line got).length < lineSize - 1 ∧
        (takeLine (lineSize - 1 - got.length) s.buffer).2 = [] := by
  obtain ⟨hcases, hlen⟩ := takeLine_cases (lineSize - 1 - got.length) s.buffer
  unfold State.line
  rcases hcases with ⟨body, hbody, htake⟩ | ⟨hbody, hend⟩
  · refine Or.inl ⟨got ++ body, ?_, by rw [htake, List.append_assoc], ?_⟩
    · rw [List.mem_append, not_or]
      exact ⟨hnl, hbody⟩
    · rw [htake, List.length_append, List.length_singleton] at hlen
      rw [List.length_append]
      omega
  · have hnl' : newline ∉ got ++ (takeLine (lineSize - 1 - got.length) s.buffer).1 := by
      rw [List.mem_append, not_or]
      exact ⟨hnl, hbody⟩
    by_cases hfull : (takeLine (lineSize - 1 - got.length) s.buffer).1.length =
        lineSize - 1 - got.length
    · refine Or.inr (Or.inl ⟨hnl', ?_, ?_⟩)
      · intro hnil
        have := congrArg List.length hnil
        rw [List.length_append, hfull, List.length_nil] at this
        omega
      · rw [List.length_append, hfull]
        omega
    · refine Or.inr (Or.inr ⟨hnl', ?_, hend.resolve_left hfull⟩)
      rw [List.length_append]
      omega

/-- If `fgets` needs more, it has taken all of the buffer. -/
theorem taken_all (s : State) {got : List UInt8} (hgot : got.length < lineSize - 1)
    (hnl : newline ∉ got) (h : ¬ Enough (s.line got)) :
    newline ∉ s.line got ∧ (s.line got).length < lineSize - 1 ∧
      (takeLine (lineSize - 1 - got.length) s.buffer).2 = [] := by
  rcases line_cases s hgot hnl with ⟨body, -, hline, -⟩ | ⟨-, -, hfull⟩ | hcases
  · exact absurd (Or.inl (by simp [hline])) h
  · exact absurd (Or.inr hfull) h
  · exact hcases

/-- The bytes in the buffer are those of the line and the rest. -/
theorem line_append (s : State) (got : List UInt8) :
    s.line got ++ (takeLine (lineSize - 1 - got.length) s.buffer).2 = got ++ s.buffer := by
  rw [State.line, List.append_assoc, takeLine_append]

variable {fin : List (Line UInt8)} {start : Nat} {cur : List UInt8}

/-- The lines to come, scanned from what has been handed out. -/
theorem Place.scan (hp : Place s fin start cur) (hgot : newline ∉ s.pc.got) (more : List UInt8) :
    completeLines newline (s.read ++ more) =
      fin ++ linesFrom newline start cur (s.pc.got ++ s.buffer ++ more) := by
  rw [hp.lines, List.append_assoc, linesFrom_append hgot]

/-- A whole line is handed out, and printed if it fits. -/
theorem Place.wholeLine (hp : Place s fin start cur) (hgot : newline ∉ s.pc.got)
    {body : List UInt8} (hbody : newline ∉ body) (hline : s.line s.pc.got = body ++ [newline])
    (hrest : rest = (takeLine (lineSize - 1 - s.pc.got.length) s.buffer).2) :
    Place (s.handOut (s.line s.pc.got) rest pipeReady)
      (fin ++ [{ start := start, elems := cur ++ body ++ [newline] }])
      (start + (cur ++ body).length + 1) [] := by
  have hbuf := line_append s s.pc.got
  rw [← hrest, hline, List.append_assoc] at hbuf
  refine ⟨fun more => ?_, ?_, ?_, Or.inl rfl, List.not_mem_nil⟩
  · show completeLines newline (s.read ++ more) = _
    rw [hp.scan hgot, ← hbuf, List.append_assoc, linesFrom_append hbody, List.append_assoc]
    show _ ++ linesFrom _ _ _ (newline :: (rest ++ more)) = _
    rw [linesFrom_sep, State.handOut, got_afterInput]
    exact (List.append_assoc fin [_] _).symm
  · intro l hl hfit
    rcases List.mem_append.1 hl with hl | hl
    · exact List.mem_append_left _ (hp.printed l hl hfit)
    · rw [List.mem_singleton] at hl
      subst hl
      -- a line whose front has been handed out before does not fit
      have hcur : cur = [] := by
        refine hp.long.resolve_right (fun hlong => ?_)
        have : (cur ++ body ++ [newline]).length ≤ lineSize - 1 := hfit
        rw [List.length_append, List.length_append, List.length_singleton] at this
        omega
      subst hcur
      refine List.mem_append_right _ (List.mem_singleton.2 ?_)
      have hstart := hp.handed
      rw [List.length_nil, Nat.add_zero] at hstart
      rw [hline, hstart]
      rfl
  · show start + (cur ++ body).length + 1 + 0 = s.handed + (s.line s.pc.got).length
    rw [← hp.handed, hline, List.length_append, List.length_append, List.length_singleton]
    omega

/-- A full array without a newline is handed out. -/
theorem Place.piece (hp : Place s fin start cur) (hgot : newline ∉ s.pc.got)
    (hnl : newline ∉ s.line s.pc.got)
    (hfull : (s.line s.pc.got).length = lineSize - 1)
    (hrest : rest = (takeLine (lineSize - 1 - s.pc.got.length) s.buffer).2) :
    Place (s.handOut (s.line s.pc.got) rest pipeReady) fin start (cur ++ s.line s.pc.got) := by
  have hbuf := line_append s s.pc.got
  rw [← hrest] at hbuf
  refine ⟨fun more => ?_, ?_, ?_, Or.inr ?_, ?_⟩
  · show completeLines newline (s.read ++ more) = _
    rw [hp.scan hgot, ← hbuf, List.append_assoc, linesFrom_append hnl, State.handOut,
      got_afterInput, List.append_nil]
  · exact fun l hl hfit => List.mem_append_left _ (hp.printed l hl hfit)
  · show start + (cur ++ s.line s.pc.got).length = s.handed + (s.line s.pc.got).length
    rw [← hp.handed, List.length_append, Nat.add_assoc]
  · rw [List.length_append]
    omega
  · rw [List.mem_append, not_or]
    exact ⟨hp.clean, hnl⟩

/-- `fgets` goes on with what it has read. -/
theorem Place.refill (hp : Place s fin start cur) (hgot : newline ∉ s.pc.got)
    (hnl : newline ∉ s.line s.pc.got)
    (hrest : (takeLine (lineSize - 1 - s.pc.got.length) s.buffer).2 = []) :
    Place (s.refill (s.line s.pc.got) pipeReady) fin start cur := by
  have hbuf := line_append s s.pc.got
  rw [hrest, List.append_nil] at hbuf
  refine ⟨fun more => ?_, hp.printed, hp.handed, hp.long, hp.clean⟩
  show completeLines newline (s.read ++ s.kernel ++ more) = _
  rw [List.append_assoc, hp.scan hgot, ← hbuf, linesFrom_append hnl]
  rfl

theorem fgetsStep_cases (h : fgetsStep s got pipeReady = some t) :
    (Enough (s.line got) ∧
        t = s.handOut (s.line got) (takeLine (lineSize - 1 - got.length) s.buffer).2 pipeReady) ∨
      (¬ Enough (s.line got) ∧ s.kernel ≠ [] ∧ t = s.refill (s.line got) pipeReady) ∨
      (¬ Enough (s.line got) ∧ s.eof = true ∧
        (s.line got = [] ∧ t = { s with buffer := [], pc := afterInput pipeReady } ∨
          s.line got ≠ [] ∧ t = s.handOut (s.line got) [] pipeReady)) := by
  unfold fgetsStep at h
  split at h
  · cases h
    exact Or.inl ⟨‹_›, rfl⟩
  · split at h
    · cases h
      exact Or.inr (Or.inl ⟨‹_›, ‹_›, rfl⟩)
    · split at h
      · refine Or.inr (Or.inr ⟨‹_›, ‹_›, ?_⟩)
        cases h
        split
        · exact Or.inl ⟨‹_›, rfl⟩
        · exact Or.inr ⟨‹_›, rfl⟩
      · cases h

/-- What `fgets` hands out is shown up to a NUL, and starts where the last bytes have ended. -/
theorem Inv.handOut (hs : Inv s) (hgot : s.pc = .fgets got pipeReady) (hne : s.line got ≠ [])
    (hrest : rest = (takeLine (lineSize - 1 - got.length) s.buffer).2)
    (hplace : s.eof = false →
      ∃ fin start cur, Place (s.handOut (s.line got) rest pipeReady) fin start cur) :
    Inv (s.handOut (s.line got) rest pipeReady) := by
  have hlen := congrArg List.length (line_append s got)
  have hcount := hs.count
  have hpipe := hs.pipe
  rw [hgot] at hcount hpipe
  rw [← hrest, List.length_append, List.length_append] at hlen
  refine ⟨hplace, ?_, ?_, ?_, ?_, ?_⟩
  · rw [State.handOut, got_afterInput]
    exact ⟨List.not_mem_nil, by decide⟩
  · show s.read.length = s.handed + (s.line got).length + (afterInput pipeReady).got.length +
      rest.length
    rw [got_afterInput, List.length_nil]
    simp only [Pc.got] at hcount
    omega
  · intro l hl
    rcases List.mem_append.1 hl with hl | hl
    · exact hs.shown l hl
    · rw [List.mem_singleton] at hl
      subst hl
      exact zero_notMem_cstr _
  · intro l hl
    show l.start < s.handed + (s.line got).length
    have hpos := List.length_pos_of_ne_nil hne
    rcases List.mem_append.1 hl with hl | hl
    · have := hs.before l hl
      omega
    · rw [List.mem_singleton] at hl
      subst hl
      show s.handed < _
      omega
  · rw [State.handOut, pipeReady_afterInput]
    exact hpipe

theorem Inv.fgetsStep (hs : Inv s) (hpc : s.pc = .fgets got pipeReady)
    (h : fgetsStep s got pipeReady = some t) : Inv t := by
  have hgot : s.pc.got = got := by rw [hpc]; rfl
  obtain ⟨hnl, hlt⟩ := hs.got
  rw [hgot] at hnl hlt
  rcases fgetsStep_cases h with ⟨henough, rfl⟩ | ⟨henough, -, rfl⟩ | ⟨henough, heof, hend⟩
  · rcases line_cases s hlt hnl with ⟨body, hbody, hline, -⟩ | ⟨hno, hne, hfull⟩ | ⟨hno, hshort, -⟩
    · refine hs.handOut hpc (by simp [hline]) rfl (fun heof => ?_)
      obtain ⟨fin, start, cur, hp⟩ := hs.place heof
      rw [← hgot] at hnl hline ⊢
      exact ⟨_, _, _, hp.wholeLine hnl hbody hline rfl⟩
    · refine hs.handOut hpc hne rfl (fun heof => ?_)
      obtain ⟨fin, start, cur, hp⟩ := hs.place heof
      rw [← hgot] at hnl hno hfull ⊢
      exact ⟨_, _, _, hp.piece hnl hno hfull rfl⟩
    · rcases henough with hmem | hfull
      · exact absurd hmem hno
      · omega
  · obtain ⟨hno, hshort, hrest⟩ := taken_all s hlt hnl henough
    have hlen := congrArg List.length (line_append s got)
    have hcount := hs.count
    rw [hrest, List.length_append, List.length_append, List.length_nil] at hlen
    rw [hgot] at hcount
    refine ⟨fun heof => ?_, ⟨hno, hshort⟩, ?_, hs.shown, hs.before, ?_⟩
    · obtain ⟨fin, start, cur, hp⟩ := hs.place heof
      rw [← hgot] at hnl hno hrest ⊢
      exact ⟨_, _, _, hp.refill hnl hno hrest⟩
    · show (s.read ++ s.kernel).length = s.handed + (s.line got).length + s.kernel.length
      rw [List.length_append]
      omega
    · intro hready
      exact hs.pipe (by rw [hpc]; exact hready)
  · obtain ⟨-, -, hrest⟩ := taken_all s hlt hnl henough
    have hfalse : s.eof = false → False := fun h => by
      rw [heof] at h
      cases h
    rcases hend with ⟨hnil, rfl⟩ | ⟨hne, rfl⟩
    · have hlen := congrArg List.length (line_append s got)
      have hcount := hs.count
      rw [hnil, hrest, List.length_append, List.length_append] at hlen
      rw [hgot] at hcount
      simp only [List.length_nil] at hlen
      refine ⟨fun heof => (hfalse heof).elim, ?_, ?_, hs.shown, hs.before, ?_⟩
      · simp only [got_afterInput]
        exact ⟨List.not_mem_nil, by decide⟩
      · simp only [got_afterInput, List.length_nil]
        omega
      · simp only [pipeReady_afterInput]
        exact fun hready => hs.pipe (by rw [hpc]; exact hready)
    · exact hs.handOut hpc hne hrest.symm (fun heof => (hfalse heof).elim)

/-- A step that leaves the input alone. -/
structure Quiet (s t : State) : Prop where
  read : t.read = s.read
  buffer : t.buffer = s.buffer
  got : t.pc.got = s.pc.got
  handed : t.handed = s.handed
  printed : t.printed = s.printed
  eof : t.eof = false → s.eof = false

theorem Inv.quiet (hs : Inv s) (hq : Quiet s t) (hpipe : t.pc.pipeReady = true → t.pipe ≠ []) :
    Inv t := by
  obtain ⟨hread, hbuffer, hgot, hhanded, hprinted, heof⟩ := hq
  refine ⟨fun h => ?_, by rw [hgot]; exact hs.got, ?_, ?_, ?_, hpipe⟩
  · obtain ⟨fin, start, cur, hp⟩ := hs.place (heof h)
    refine ⟨fin, start, cur, fun more => ?_, ?_, ?_, hp.long, hp.clean⟩
    · rw [hread, hbuffer, hgot]
      exact hp.lines more
    · rw [hprinted]
      exact hp.printed
    · rw [hhanded]
      exact hp.handed
  · rw [hread, hhanded, hgot, hbuffer]
    exact hs.count
  · rw [hprinted]
    exact hs.shown
  · rw [hprinted, hhanded]
    exact hs.before

/-- What `main` does outside of `fgets` leaves the input alone. -/
theorem mainStep_quiet (hpc : ∀ got pipeReady, s.pc ≠ .fgets got pipeReady)
    (h : mainStep s = some t) :
    Quiet s t ∧ t.kernel = s.kernel ∧ (t.pc.pipeReady = true → t.pipe ≠ []) := by
  unfold mainStep at h
  split at h
  · rename_i hselect
    split at h
    · cases h
      refine ⟨⟨rfl, rfl, by rw [hselect]; rfl, rfl, rfl, id⟩, rfl, fun hready => ?_⟩
      exact of_decide_eq_true hready
    · split at h
      · cases h
        exact ⟨⟨rfl, rfl, by rw [hselect]; rfl, rfl, rfl, id⟩, rfl, fun _ => ‹_›⟩
      · cases h
  · rename_i hfgets
    exact absurd hfgets (hpc _ _)
  · rename_i hread
    split at h
    · cases h
    · cases h
      refine ⟨⟨rfl, rfl, ?_, rfl, rfl, id⟩, rfl, ?_⟩
      · rw [hread]
        split
        · rfl
        · split <;> rfl
      · intro hready
        split at hready
        · cases hready
        · split at hready <;> cases hready
  · cases h

theorem Inv.step {a : Action} (hs : Inv s) (h : step s a = some t) : Inv t := by
  cases a with
  | arrive chunk =>
    simp only [SignalInput.step] at h
    split at h
    · cases h
    · cases h
      exact hs.quiet ⟨rfl, rfl, rfl, rfl, rfl, id⟩ hs.pipe
  | close =>
    cases h
    exact hs.quiet ⟨rfl, rfl, rfl, rfl, rfl, fun h => (by cases h)⟩ hs.pipe
  | signal sig =>
    simp only [SignalInput.step] at h
    split at h
    · cases h
      refine hs.quiet ⟨rfl, rfl, rfl, rfl, rfl, id⟩ (fun _ hnil => ?_)
      have := congrArg List.length hnil
      cases sig <;> simp [Sig.msg] at this
    · cases h
  | main =>
    by_cases hpc : ∃ got pipeReady, s.pc = .fgets got pipeReady
    · obtain ⟨got, pipeReady, hpc⟩ := hpc
      simp only [SignalInput.step, mainStep, hpc] at h
      exact hs.fgetsStep hpc h
    · simp only [not_exists] at hpc
      obtain ⟨hq, -, hpipe⟩ := mainStep_quiet hpc h
      exact hs.quiet hq hpipe
  | selectFails =>
    simp only [SignalInput.step] at h
    split at h
    · rename_i hselect
      cases h
      exact hs.quiet ⟨rfl, rfl, by rw [hselect]; rfl, rfl, rfl, id⟩ (fun h => (by cases h))
    · cases h

theorem inv_reachable {ok : State → Action → Prop} (hr : Reachable step ok initial s) : Inv s :=
  hr.invariant inv_initial (fun _ _ _ hs _ hn => hs.step hn)

/-! ### The main result -/

/-- How many bytes `fgets` is about to hand out. -/
def State.taken (s : State) : Nat :=
  match s.pc with
  | .fgets got _ => (s.line got).length
  | _ => 0

/-- In the bytes that have been read no line stands behind those. -/
def NoneLeft (s : State) : Prop := s.eof = false → NoneBehind s.read (s.handed + s.taken)

theorem NoneBehind.mono {bytes : List UInt8} {m n : Nat} (h : NoneBehind bytes m) (hle : m ≤ n) :
    NoneBehind bytes n :=
  fun l hl hfit => Nat.lt_of_lt_of_le (h l hl hfit) hle

theorem taken_of_not_fgets (hpc : ∀ got pipeReady, s.pc ≠ .fgets got pipeReady) : s.taken = 0 := by
  unfold State.taken
  split
  · exact absurd ‹_› (hpc _ _)
  · rfl

theorem taken_handOut (line : List UInt8) : (s.handOut line rest pipeReady).taken = 0 := by
  apply taken_of_not_fgets
  intro got ready
  cases pipeReady <;> exact fun h => (by cases h)

theorem NoneLeft.step {a : Action} (hs : NoneLeft s) (hok : Careful s a)
    (h : step s a = some t) : NoneLeft t := by
  cases a with
  | arrive chunk =>
    simp only [SignalInput.step] at h
    split at h
    · cases h
    · cases h
      exact hs
  | close =>
    cases h
    exact fun h => (by cases h)
  | signal sig =>
    simp only [SignalInput.step] at h
    split at h
    · cases h
      exact hs
    · cases h
  | main =>
    by_cases hpc : ∃ got pipeReady, s.pc = .fgets got pipeReady
    · obtain ⟨got, pipeReady, hpc⟩ := hpc
      simp only [SignalInput.step, mainStep, hpc] at h
      simp only [Careful, hpc, ReadOk] at hok
      have htaken : s.taken = (s.line got).length := by
        rw [State.taken, hpc]
      unfold NoneLeft at hs ⊢
      rw [htaken] at hs
      rcases fgetsStep_cases h with ⟨-, rfl⟩ | ⟨henough, -, rfl⟩ | ⟨-, heof, hend⟩
      · rw [taken_handOut]
        exact hs
      · intro heof
        have := hok henough heof
        unfold State.upTo at this
        rw [Nat.add_assoc, ← List.length_append] at this
        exact this
      · rcases hend with ⟨-, rfl⟩ | ⟨-, rfl⟩ <;>
          exact fun h => absurd (heof.symm.trans h) (by decide)
    · simp only [not_exists] at hpc
      obtain ⟨hq, -, -⟩ := mainStep_quiet hpc h
      intro heof
      rw [hq.read, hq.handed]
      have := hs (hq.eof heof)
      rw [taken_of_not_fgets hpc] at this
      exact this.mono (by omega)
  | selectFails =>
    simp only [SignalInput.step] at h
    split at h
    · rename_i hselect
      cases h
      intro heof
      have := hs heof
      rw [taken_of_not_fgets (by simp [hselect])] at this
      exact this
    · cases h

/-- **No input line waits.**  When every read by `fgets` leaves no line behind the bytes that it
takes, then whenever `main` is about to wait, all complete lines that fit have been printed up to
their NULs: they have been printed exactly when none has a NUL. -/
theorem nothing_waits (hr : Reachable step Careful initial s) (hb : Blocks s) :
    (∀ l ∈ completeLines newline s.arrived, Fits l → l ∈ s.printed) ↔
      ∀ l ∈ completeLines newline s.arrived, Fits l → 0 ∉ l.elems := by
  have hinv := inv_reachable hr
  have hleft : NoneLeft s := hr.invariant
    (fun _ l hl => (by cases hl)) (fun _ _ _ hs hok hn => hs.step hok hn)
  obtain ⟨hpc, hkernel, heof, -⟩ := hb
  obtain ⟨fin, start, cur, hp⟩ := hinv.place heof
  have harrived : s.arrived = s.read := by rw [State.arrived, hkernel, List.append_nil]
  have hnone := hleft heof
  rw [taken_of_not_fgets (by simp [hpc]), Nat.add_zero] at hnone
  have hlines := hp.lines []
  rw [List.append_nil, List.append_nil] at hlines
  rw [harrived]
  have hshown : ∀ l ∈ completeLines newline s.read, Fits l →
      { l with elems := cstr l.elems } ∈ s.printed := by
    intro l hl hfit
    have hlt := hnone l hl hfit
    rw [hlines] at hl
    rcases List.mem_append.1 hl with hl | hl
    · exact hp.printed l hl hfit
    · -- a line to come starts behind what has been handed out, or does not fit
      exfalso
      have hstart := start_of_mem hl
      have hhanded := hp.handed
      have hlen : l.elems.length ≤ lineSize - 1 := hfit
      rw [hpc, show Pc.select.got = [] from rfl, List.append_nil] at hstart
      rcases hp.long with rfl | hlong
      · rw [List.length_nil] at hstart hhanded
        omega
      · omega
  constructor
  · exact fun h l hl hfit => hinv.shown l (h l hl hfit)
  · intro h l hl hfit
    have := hshown l hl hfit
    rwa [cstr_of_zero_notMem (h l hl hfit)] at this

/-! ### A read that gives more -/

/-- `main` alone goes from `s` to where it waits or ends, without any more input. -/
def Settles (s : State) : Prop :=
  ∃ t, Reachable step Any s t ∧ (Blocks t ∨ t.pc = .left) ∧ t.arrived = s.arrived ∧
    t.handed = s.handed ∧ t.printed = s.printed

theorem Settles.step (h : mainStep s = some t) (harrived : t.arrived = s.arrived)
    (hhanded : t.handed = s.handed) (hprinted : t.printed = s.printed) (ht : Settles t) :
    Settles s := by
  obtain ⟨u, ⟨as, hr⟩, hend, hu⟩ := ht
  rw [harrived, hhanded, hprinted] at hu
  have hmain : SignalInput.step s .main = some t := h
  exact ⟨u, ⟨_, hr.cons trivial hmain⟩, hend, hu⟩

/-- The pipe is read until it is empty, or `SIGTERM` is found. -/
theorem settles_readPipe (hpc : s.pc = .readPipe) (hpipe : s.pipe ≠ []) (hkernel : s.kernel = [])
    (heof : s.eof = false) : Settles s := by
  induction hn : s.pipe.length using Nat.strong_induction_on generalizing s with
  | h n ih =>
    have hlt : (s.pipe.drop msgSize).length < n := by
      have := List.length_pos_of_ne_nil hpipe
      rw [List.length_drop]
      show s.pipe.length - 64 < n
      omega
    -- what is found decides where `main` goes
    obtain ⟨pc, hstep, hdest⟩ : ∃ pc,
        mainStep s = some { s with pipe := s.pipe.drop msgSize, pc := pc } ∧
          (pc = .select ∨ pc = .left) := by
      rw [mainStep, hpc]
      simp only [if_neg hpipe]
      refine ⟨_, rfl, ?_⟩
      split
      · exact Or.inl rfl
      · split
        · exact Or.inr rfl
        · exact Or.inl rfl
    refine .step hstep rfl rfl rfl ?_
    rcases hdest with rfl | rfl
    · by_cases hnil : s.pipe.drop msgSize = []
      · exact ⟨_, .refl _, Or.inl ⟨rfl, hkernel, heof, hnil⟩, rfl, rfl, rfl⟩
      · refine .step (t := { s with pipe := s.pipe.drop msgSize, pc := .readPipe })
          ?_ rfl rfl rfl ?_
        · simp [mainStep, hkernel, heof, hnil]
        · exact ih _ hlt rfl hnil hkernel heof rfl
    · exact ⟨_, .refl _, Or.inr rfl, rfl, rfl, rfl⟩

theorem settles_afterInput (hpc : s.pc = afterInput pipeReady)
    (hpipe : s.pc.pipeReady = true → s.pipe ≠ []) (hkernel : s.kernel = [])
    (heof : s.eof = false) : Settles s := by
  by_cases hnil : s.pipe = []
  · cases pipeReady with
    | true => exact absurd hnil (hpipe (by rw [hpc]; rfl))
    | false => exact ⟨s, .refl s, Or.inl ⟨hpc, hkernel, heof, hnil⟩, rfl, rfl, rfl⟩
  · cases pipeReady with
    | true => exact settles_readPipe hpc hnil hkernel heof
    | false =>
      refine .step (t := { s with pc := .readPipe }) ?_ rfl rfl rfl
        (settles_readPipe rfl hnil hkernel heof)
      rw [mainStep, hpc]
      simp [afterInput, hkernel, heof, hnil]

/-- With a line behind what `fgets` is about to hand out, `main` alone leaves that line. -/
theorem Inv.leaves {l : Line UInt8} (hs : Inv s) (hpc : s.pc = .fgets got pipeReady)
    (hkernel : s.kernel = []) (heof : s.eof = false) (hl : l ∈ completeLines newline s.read)
    (hle : s.handed + (s.line got).length ≤ l.start) :
    ∃ u, Reachable SignalInput.step Any s u ∧ (Blocks u ∨ u.pc = .left) ∧
      l ∈ completeLines newline u.arrived ∧ l ∉ u.printed := by
  have hlong := end_of_mem hl
  have hcount := hs.count
  obtain ⟨hnl, hlt⟩ := hs.got
  rw [hpc] at hcount hnl hlt
  simp only [Pc.got] at hcount hnl hlt
  -- the line lies in the buffer, so `fgets` does not take all of that
  have hall : Enough (s.line got) := by
    by_contra henough
    obtain ⟨-, -, hrest⟩ := taken_all s hlt hnl henough
    have hbuf := congrArg List.length (line_append s got)
    rw [hrest, List.append_nil, List.length_append] at hbuf
    rw [List.length_nil] at hlong
    omega
  obtain ⟨next, hnext⟩ : ∃ next, next = s.handOut (s.line got)
    (takeLine (lineSize - 1 - got.length) s.buffer).2 pipeReady := ⟨_, rfl⟩
  have hstep : SignalInput.fgetsStep s got pipeReady = some next := by
    rw [SignalInput.fgetsStep, if_pos hall, hnext]
  have hmain : SignalInput.step s .main = some next := by
    simp only [SignalInput.step, mainStep, hpc]
    exact hstep
  have hinv := hs.fgetsStep hpc hstep
  obtain ⟨u, ⟨as, hrun⟩, hend, harrived, -, hprinted⟩ : Settles next :=
    settles_afterInput (by rw [hnext]; rfl) hinv.pipe (by rw [hnext]; exact hkernel)
      (by rw [hnext]; exact heof)
  refine ⟨u, ⟨_, hrun.cons trivial hmain⟩, hend, ?_, fun hmem => ?_⟩
  · have hsame : next.arrived = s.read ++ s.kernel := by rw [hnext]; rfl
    rw [harrived, hsame, hkernel, List.append_nil]
    exact hl
  · have hbefore := hinv.before l (hprinted ▸ hmem)
    have hhanded : next.handed = s.handed + (s.line got).length := by rw [hnext]; rfl
    omega

/-- **A read that gives a line too many.**  From there `main` alone comes to wait, or ends, and a
complete line that fits has not been printed. -/
theorem careless_read {a : Action} (hr : Reachable step Any initial s) (hbad : ¬ Careful s a)
    (hn : step s a = some t) :
    ∃ u, Reachable step Any t u ∧ (Blocks u ∨ u.pc = .left) ∧
      ∃ l ∈ completeLines newline u.arrived, Fits l ∧ l ∉ u.printed := by
  have ht := inv_reachable (hr.step trivial hn)
  cases a with
  | arrive | close | signal | selectFails => exact absurd trivial hbad
  | main =>
    simp only [Careful] at hbad
    cases hpc : s.pc with
    | select | readPipe | left =>
      rw [hpc] at hbad
      exact absurd trivial hbad
    | fgets got pipeReady =>
      rw [hpc] at hbad
      simp only [ReadOk, Classical.not_imp] at hbad
      obtain ⟨henough, heof, hbehind⟩ := hbad
      simp only [NoneBehind, not_forall, not_lt] at hbehind
      obtain ⟨l, hl, hfit, hle⟩ := hbehind
      simp only [step, mainStep, hpc] at hn
      rcases fgetsStep_cases hn with ⟨h, -⟩ | ⟨-, -, rfl⟩ | ⟨-, h, -⟩
      · exact absurd h henough
      · rw [State.upTo, Nat.add_assoc, ← List.length_append] at hle
        obtain ⟨u, hrun, hend, hmem, hnot⟩ := ht.leaves rfl rfl heof hl hle
        exact ⟨u, hrun, hend, l, hmem, hfit, hnot⟩
      · exact absurd (h.symm.trans heof) (by decide)

/-! ### Runs -/

/-- A line arrives, and `main` takes it. -/
def typeLine (line : String) : List Action :=
  [.arrive (text line), .main, .main, .main]

/-- Two lines that arrive one after the other, and a signal. -/
theorem nothing_waits_typed : ∃ s, Reachable step Careful initial s ∧ Blocks s ∧
    s.printed.length = 2 ∧
      ∀ l ∈ completeLines newline s.arrived, Fits l → l ∈ s.printed := by
  have hr : Reachable step Careful initial _ :=
    ⟨typeLine "a\n" ++ [.signal .sigint, .main, .main] ++ typeLine "b\n", exec_guarded rfl⟩
  exact ⟨_, hr, ⟨rfl, rfl, rfl, rfl⟩, rfl, (nothing_waits hr ⟨rfl, rfl, rfl, rfl⟩).2 (by decide)⟩

/-- Two lines that arrive together: the second waits. -/
theorem second_line_waits : ∃ s, Reachable step Any initial s ∧ Blocks s ∧
    ∃ l ∈ completeLines newline s.arrived, Fits l ∧ 0 ∉ l.elems ∧ l ∉ s.printed := by
  refine ⟨_, ⟨typeLine "a\nb\n", exec_run rfl⟩, ⟨rfl, rfl, rfl, rfl⟩,
    { start := 2, elems := text "b\n" }, by decide, by decide, by decide, by decide⟩

end EmbeddedLinux.SignalInput
