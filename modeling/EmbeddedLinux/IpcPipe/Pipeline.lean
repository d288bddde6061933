import EmbeddedLinux.Lib.Descriptors
import EmbeddedLinux.Lib.Transition

/-!
# `ls -l | wc -l` over a pipe

The program makes a pipe and starts two children.  Each process rearranges its own copy of the
descriptor table, and then the children run `ls` and `wc`, and the parent waits.  The three take
their steps in any order.

The calls a process has still to make, made on the table it has, always lead to the same table
(`Follows`).  So the table at `execlp` is known: it is the right one, except where the read end got
the number 0.  Then the `dup2` of the second child changes nothing, and the `close` after it takes
away the standard input (`wired_iff`).
-/

namespace EmbeddedLinux.IpcPipe

open Descriptors Transition

/-- An open file: an end of the pipe, or a file `f` that was open at the start. -/
inductive File (F : Type)
  | readEnd
  | writeEnd
  | other (f : F)
  deriving DecidableEq

variable {F : Type} {limit : Nat}

abbrev FdTable (F : Type) (limit : Nat) := Table (File F) limit

inductive Syscall
  | close (fd : Nat)
  | dup2 (old new : Nat)

def Syscall.run : Syscall → FdTable F limit → FdTable F limit
  | .close fd, t => t.close fd
  | .dup2 old new, t => t.dup2 old new

/-- `STDIN_FILENO` -/
abbrev stdin : Nat := 0

/-- `STDOUT_FILENO` -/
abbrev stdout : Nat := 1

/-! ### The program -/

/-- A child closes the end it does not need, puts the other one in the place of `std`, and
closes it under its old number. -/
def childCalls (unused used std : Nat) : List Syscall :=
  [.close unused, .dup2 used std, .close used]

/-- The first child, up to `execlp("ls", "ls", "-l", NULL)`. -/
def firstChild (fd0 fd1 : Nat) : List Syscall := childCalls fd0 fd1 stdout

/-- The second child, up to `execlp("wc", "wc", "-l", NULL)`. -/
def secondChild (fd0 fd1 : Nat) : List Syscall := childCalls fd1 fd0 stdin

/-- The parent, up to `wait(NULL)`. -/
def parentCalls (fd0 fd1 : Nat) : List Syscall := [.close fd0, .close fd1]

/-- A process between `fork` and `execlp` or `wait`: the calls it has still to make. -/
structure Proc (F : Type) (limit : Nat) where
  todo : List Syscall
  table : FdTable F limit

def Proc.step (p : Proc F limit) : Option (Proc F limit) :=
  match p.todo with
  | [] => none
  | c :: todo => some { todo := todo, table := c.run p.table }

/-- Where the parent is. -/
inductive Parent (F : Type) (limit : Nat)
  /-- at `pipe(fd)` -/
  | piping (table : FdTable F limit)
  /-- at the first `fork` -/
  | forking1 (fd0 fd1 : Nat) (table : FdTable F limit)
  /-- at the second `fork` -/
  | forking2 (fd0 fd1 : Nat) (table : FdTable F limit)
  /-- behind both -/
  | closing (p : Proc F limit)
  /-- a call has failed: `exit(EXIT_FAILURE)` -/
  | failed

/-- The three processes, as far as they have been started. -/
structure State (F : Type) (limit : Nat) where
  parent : Parent F limit
  first : Option (Proc F limit)
  second : Option (Proc F limit)

/-- The parent with its initial table. -/
def initial (t : Table F limit) : State F limit :=
  { parent := .piping (t.map .other)
    first := none
    second := none }

inductive Action
  /-- `ok`: the kernel has the resources for the call -/
  | pipe (ok : Bool)
  | fork1 (ok : Bool)
  | fork2 (ok : Bool)
  /-- the next call of a process -/
  | parent
  | first
  | second

def next (s : State F limit) : Action → Option (State F limit)
  | .pipe ok =>
    match s.parent with
    | .piping t =>
      match t.pipe .readEnd .writeEnd with
      | some (fd0, fd1, u) =>
        some { s with parent := if ok then .forking1 fd0 fd1 u else .failed }
      | none => some { s with parent := .failed }
    | _ => none
  | .fork1 ok =>
    match s.parent with
    | .forking1 fd0 fd1 t =>
      if ok then
        some { s with
          parent := .forking2 fd0 fd1 t
          first := some { todo := firstChild fd0 fd1, table := t } }
      else some { s with parent := .failed }
    | _ => none
  | .fork2 ok =>
    match s.parent with
    | .forking2 fd0 fd1 t =>
      if ok then
        some { s with
          parent := .closing { todo := parentCalls fd0 fd1, table := t }
          second := some { todo := secondChild fd0 fd1, table := t } }
      else some { s with parent := .failed }
    | _ => none
  | .parent =>
    match s.parent with
    | .closing p => p.step.map (fun p => { s with parent := .closing p })
    | _ => none
  | .first => (s.first.bind Proc.step).map (fun p => { s with first := some p })
  | .second => (s.second.bind Proc.step).map (fun p => { s with second := some p })

/-! ### What is right -/

/-- No end of the pipe. -/
def NoEnd (f : Option (File F)) : Prop := f ≠ some .readEnd ∧ f ≠ some .writeEnd

/-- Each process has the ends it needs, and no others: the children at `execlp`, and the parent when
it starts to wait. -/
structure Wired (s : State F limit) : Prop where
  first : ∀ t, s.first = some { todo := [], table := t } →
    t.file stdout = some .writeEnd ∧ ∀ n, n ≠ stdout → NoEnd (t.file n)
  second : ∀ t, s.second = some { todo := [], table := t } →
    t.file stdin = some .readEnd ∧ ∀ n, n ≠ stdin → NoEnd (t.file n)
  parent : ∀ t, s.parent = .closing { todo := [], table := t } → ∀ n, NoEnd (t.file n)

/-! ### The tables at the end -/

variable {t : Table F limit} {u : FdTable F limit} {s s' : State F limit} {p q : Proc F limit}
  {a : Action} {calls : Nat → Nat → List Syscall} {fd0 fd1 used unused std : Nat}

def runAll (cs : List Syscall) (u : FdTable F limit) : FdTable F limit :=
  cs.foldl (fun u c => c.run u) u

theorem noEnd_none : NoEnd (none : Option (File F)) := by
  constructor <;> nofun

theorem noEnd_other (f : Option F) : NoEnd (f.map File.other) := by
  cases f with
  | none => exact noEnd_none
  | some f => constructor <;> nofun

/-- What `pipe` returns to the parent. -/
theorem pipe_spec (h : (t.map File.other).pipe .readEnd .writeEnd = some (fd0, fd1, u)) :
    fd0 < fd1 ∧ fd1 < limit ∧ (fd0 = 0 ↔ t.file 0 = none) ∧
      ∀ n, u.file n = if n = fd1 then some .writeEnd else if n = fd0 then some .readEnd else
        (t.file n).map .other := by
  obtain ⟨hlt, hlim, hfree, -, hlow, hfile⟩ := Table.pipe_eq_some h
  have hnone : ∀ n, (t.map File.other).file n = none ↔ t.file n = none :=
    fun n => Option.map_eq_none_iff
  refine ⟨hlt, hlim, ⟨?_, fun h0 => ?_⟩, hfile⟩
  · rintro rfl
    exact (hnone 0).1 hfree
  · by_contra hne
    exact hlow 0 (Nat.zero_lt_of_lt hlt) (Ne.symm hne) ((hnone 0).2 h0)

/-- The table of a child.  If the end it uses has the number of `std`, the last call closes it. -/
theorem child_file {e : File F} (hused : u.file used = some e) (hne : used ≠ unused)
    (hstd : std < limit) (n : Nat) : (runAll (childCalls unused used std) u).file n =
      if n = used then none else if n = std then some e else if n = unused then none else
        u.file n := by
  have hclosed : (u.close unused).file used = some e := by
    rw [Table.close_file, if_neg hne, hused]
  show (((u.close unused).dup2 used std).close used).file n = _
  rw [Table.close_file, Table.dup2_file hclosed hstd, Table.close_file]

/-- A child whose end has another number than `std`. -/
theorem child_wired {e : File F} (hused : u.file used = some e) (hne : used ≠ unused)
    (hstd : std < limit) (hdup : used ≠ std)
    (hother : ∀ n, n ≠ used → n ≠ unused → NoEnd (u.file n)) :
    (runAll (childCalls unused used std) u).file std = some e ∧
      ∀ n, n ≠ std → NoEnd ((runAll (childCalls unused used std) u).file n) := by
  constructor
  · rw [child_file hused hne hstd, if_neg (Ne.symm hdup), if_pos rfl]
  · intro n hn
    rw [child_file hused hne hstd, if_neg hn]
    split
    · exact noEnd_none
    · split
      · exact noEnd_none
      · rename_i h1 h2
        exact hother n h1 h2

section
variable (h : (t.map File.other).pipe .readEnd .writeEnd = some (fd0, fd1, u))
include h

theorem other_noEnd {n : Nat} (h0 : n ≠ fd0) (h1 : n ≠ fd1) : NoEnd (u.file n) := by
  obtain ⟨-, -, -, hfile⟩ := pipe_spec h
  rw [hfile, if_neg h1, if_neg h0]
  exact noEnd_other _

theorem first_wired (h0 : t.file 0 ≠ none) :
    (runAll (firstChild fd0 fd1) u).file stdout = some .writeEnd ∧
      ∀ n, n ≠ stdout → NoEnd ((runAll (firstChild fd0 fd1) u).file n) := by
  obtain ⟨hlt, hlim, hzero, hfile⟩ := pipe_spec h
  have hpos : fd0 ≠ 0 := fun e => h0 (hzero.1 e)
  exact child_wired (by rw [hfile, if_pos rfl]) (by omega) (by show 1 < limit; omega)
    (by show fd1 ≠ 1; omega) (fun n h1 h0 => other_noEnd h h0 h1)

theorem second_wired (h0 : t.file 0 ≠ none) :
    (runAll (secondChild fd0 fd1) u).file stdin = some .readEnd ∧
      ∀ n, n ≠ stdin → NoEnd ((runAll (secondChild fd0 fd1) u).file n) := by
  obtain ⟨hlt, hlim, hzero, hfile⟩ := pipe_spec h
  have hpos : fd0 ≠ 0 := fun e => h0 (hzero.1 e)
  exact child_wired (by rw [hfile, if_neg (by omega), if_pos rfl]) (by omega)
    (by show 0 < limit; omega) hpos (fun n h0 h1 => other_noEnd h h0 h1)

theorem parent_wired (n : Nat) : NoEnd ((runAll (parentCalls fd0 fd1) u).file n) := by
  show NoEnd (((u.close fd0).close fd1).file n)
  rw [Table.close_file, Table.close_file]
  split
  · exact noEnd_none
  · split
    · exact noEnd_none
    · rename_i h1 h0
      exact other_noEnd h h0 h1

/-- **The read end has the number 0**: the second child loses it. -/
theorem second_lost (h0 : t.file 0 = none) :
    (runAll (secondChild fd0 fd1) u).file stdin = none := by
  obtain ⟨hlt, hlim, hzero, hfile⟩ := pipe_spec h
  obtain rfl := hzero.2 h0
  have hused : u.file 0 = some .readEnd := by rw [hfile, if_neg (by omega), if_pos rfl]
  rw [secondChild, child_file hused (by omega) (by show 0 < limit; omega), if_pos rfl]

end

/-! ### Runs -/

/-- The process makes the calls `calls`, or what is left of them, on the table with the pipe. -/
def Follows (t : Table F limit) (calls : Nat → Nat → List Syscall) (p : Proc F limit) : Prop :=
  ∃ fd0 fd1 u, (t.map File.other).pipe .readEnd .writeEnd = some (fd0, fd1, u) ∧
    runAll p.todo p.table = runAll (calls fd0 fd1) u

theorem Follows.step (hp : Follows t calls p) (h : p.step = some q) : Follows t calls q := by
  obtain ⟨fd0, fd1, u, hpipe, hrun⟩ := hp
  refine ⟨fd0, fd1, u, hpipe, ?_⟩
  rw [← hrun]
  unfold Proc.step at h
  split at h
  · cases h
  · rename_i c todo htodo
    cases h
    rw [htodo]
    rfl

/-- **What holds in every state**: the parent has the table it started with, or the one with the
pipe, and behind the forks each process is on its way. -/
structure Sound (t : Table F limit) (s : State F limit) : Prop where
  parent : match s.parent with
    | .piping u => u = t.map .other
    | .forking1 fd0 fd1 u | .forking2 fd0 fd1 u =>
      (t.map File.other).pipe .readEnd .writeEnd = some (fd0, fd1, u)
    | .closing p => Follows t parentCalls p
    | .failed => True
  first : ∀ p, s.first = some p → Follows t firstChild p
  second : ∀ p, s.second = some p → Follows t secondChild p

theorem sound_initial (t : Table F limit) : Sound t (initial t) :=
  ⟨rfl, nofun, nofun⟩

theorem sound_next (hs : Sound t s) (h : next s a = some s') : Sound t s' := by
  obtain ⟨hparent, hfirst, hsecond⟩ := hs
  cases a with
  | pipe ok =>
    simp only [next] at h
    split at h
    · rename_i u hu
      rw [hu] at hparent
      obtain rfl : u = t.map .other := hparent
      split at h
      · rename_i hpipe
        cases h
        cases ok
        · exact ⟨trivial, hfirst, hsecond⟩
        · exact ⟨hpipe, hfirst, hsecond⟩
      · cases h
        exact ⟨trivial, hfirst, hsecond⟩
    · cases h
  | fork1 ok =>
    simp only [next] at h
    split at h
    · rename_i fd0 fd1 u hu
      rw [hu] at hparent
      cases ok
      · cases h
        exact ⟨trivial, hfirst, hsecond⟩
      · cases h
        refine ⟨hparent, ?_, hsecond⟩
        rintro p ⟨⟩
        exact ⟨fd0, fd1, u, hparent, rfl⟩
    · cases h
  | fork2 ok =>
    simp only [next] at h
    split at h
    · rename_i fd0 fd1 u hu
      rw [hu] at hparent
      cases ok
      · cases h
        exact ⟨trivial, hfirst, hsecond⟩
      · cases h
        refine ⟨⟨fd0, fd1, u, hparent, rfl⟩, hfirst, ?_⟩
        rintro p ⟨⟩
        exact ⟨fd0, fd1, u, hparent, rfl⟩
    · cases h
  | parent =>
    simp only [next] at h
    split at h
    · rename_i p hp
      rw [hp] at hparent
      obtain ⟨q, hq, rfl⟩ := Option.map_eq_some_iff.1 h
      exact ⟨Follows.step hparent hq, hfirst, hsecond⟩
    · cases h
  | first =>
    obtain ⟨q, hq, rfl⟩ := Option.map_eq_some_iff.1 h
    obtain ⟨p, hp, hstep⟩ := Option.bind_eq_some_iff.1 hq
    refine ⟨hparent, ?_, hsecond⟩
    rintro q' ⟨⟩
    exact (hfirst p hp).step hstep
  | second =>
    obtain ⟨q, hq, rfl⟩ := Option.map_eq_some_iff.1 h
    obtain ⟨p, hp, hstep⟩ := Option.bind_eq_some_iff.1 hq
    refine ⟨hparent, hfirst, ?_⟩
    rintro q' ⟨⟩
    exact (hsecond p hp).step hstep

theorem sound_run (hr : Reachable next Any (initial t) s) : Sound t s :=
  hr.invariant (sound_initial t) (fun _ _ _ hs _ hn => sound_next hs hn)

/-- A run from a table with the number 0 taken. -/
theorem wired_of_sound (hs : Sound t s) (h0 : t.file 0 ≠ none) : Wired s := by
  constructor
  · intro v hv
    obtain ⟨fd0, fd1, u, hpipe, hrun⟩ := hs.first _ hv
    rw [show v = runAll (firstChild fd0 fd1) u from hrun]
    exact first_wired hpipe h0
  · intro v hv
    obtain ⟨fd0, fd1, u, hpipe, hrun⟩ := hs.second _ hv
    rw [show v = runAll (secondChild fd0 fd1) u from hrun]
    exact second_wired hpipe h0
  · intro v hv
    have hparent := hs.parent
    rw [hv] at hparent
    obtain ⟨fd0, fd1, u, hpipe, hrun⟩ := hparent
    rw [show v = runAll (parentCalls fd0 fd1) u from hrun]
    exact parent_wired hpipe

/-- Without two free numbers no child is started. -/
theorem wired_of_pipe_none (hs : Sound t s)
    (hpipe : (t.map File.other).pipe .readEnd .writeEnd = none) : Wired s := by
  have hnot : ∀ calls p, ¬ Follows t calls p := by
    rintro calls p ⟨fd0, fd1, u, hsome, -⟩
    rw [hpipe] at hsome
    cases hsome
  constructor
  · exact fun v hv => absurd (hs.first _ hv) (hnot _ _)
  · exact fun v hv => absurd (hs.second _ hv) (hnot _ _)
  · intro v hv
    have hparent := hs.parent
    rw [hv] at hparent
    exact absurd hparent (hnot _ _)

/-- The parent forks twice and goes on to `wait`, and the children to `execlp`. -/
def toTheEnd : List Action :=
  [.pipe true, .fork1 true, .fork2 true, .second, .first, .parent, .second, .first, .second, .first,
    .parent]

/-- **All three processes arrive.** -/
theorem all_arrive (hpipe : (t.map File.other).pipe .readEnd .writeEnd = some (fd0, fd1, u)) :
    Run next Any (initial t) toTheEnd
      { parent := .closing { todo := [], table := runAll (parentCalls fd0 fd1) u }
        first := some { todo := [], table := runAll (firstChild fd0 fd1) u }
        second := some { todo := [], table := runAll (secondChild fd0 fd1) u } } := by
  have hfirst : next (initial t) (.pipe true) =
      some { initial t with parent := .forking1 fd0 fd1 u } := by
    simp only [next, initial, hpipe]
    rfl
  exact .cons trivial hfirst (exec_run rfl)

/-- **The number 0 is free**: `wc` is started without a standard input. -/
theorem second_not_wired (h0 : t.file 0 = none)
    (hpipe : (t.map File.other).pipe .readEnd .writeEnd = some (fd0, fd1, u)) :
    ∃ s, Run next Any (initial t) toTheEnd s ∧ ¬ Wired s := by
  refine ⟨_, all_arrive hpipe, fun hs => ?_⟩
  have hstdin := (hs.second _ rfl).1
  rw [second_lost hpipe h0] at hstdin
  cases hstdin

/-! ### The main result -/

/-- **When the pipeline is wired right**: descriptor 0 is open at the start, or no two descriptors
are free, so that there is no pipe. -/
theorem wired_iff (t : Table F limit) : (∀ s, Reachable next Any (initial t) s → Wired s) ↔
    t.file 0 ≠ none ∨ ∀ a b, a < b → b < limit → t.file a = none → t.file b ≠ none := by
  have hfree : (t.map File.other).pipe .readEnd .writeEnd = none ↔
      ∀ a b, a < b → b < limit → t.file a = none → t.file b ≠ none := by
    rw [Table.pipe_eq_none_iff]
    simp only [Table.map, ne_eq, Option.map_eq_none_iff]
  rw [← hfree]
  constructor
  · intro hwired
    by_contra hnot
    rw [not_or, not_not] at hnot
    obtain ⟨⟨fd0, fd1, u⟩, hpipe⟩ := Option.ne_none_iff_exists'.1 hnot.2
    obtain ⟨s, hr, hs⟩ := second_not_wired hnot.1 hpipe
    exact hs (hwired s ⟨_, hr⟩)
  · intro hcond s hr
    rcases hcond with h0 | hpipe
    · exact wired_of_sound (sound_run hr) h0
    · exact wired_of_pipe_none (sound_run hr) hpipe

/-- A table of 1024 descriptors with only the numbers 1 and 2 open. -/
def noStdin : Table Unit 1024 where
  file n := if n = 1 ∨ n = 2 then some () else none
  closed n hn := if_neg (by omega)

/-- Without a standard input the pipe is read at 0, and `wc` gets nothing. -/
theorem noStdin_not_wired : ∃ s, Run next Any (initial noStdin) toTheEnd s ∧ ¬ Wired s := by
  have hpipe : (noStdin.map File.other).pipe .readEnd .writeEnd ≠ none := by
    rw [ne_eq, Table.pipe_eq_none_iff]
    intro h
    exact h 0 3 (by decide) (by decide) rfl rfl
  obtain ⟨⟨fd0, fd1, u⟩, hpipe⟩ := Option.ne_none_iff_exists'.1 hpipe
  exact second_not_wired rfl hpipe

end EmbeddedLinux.IpcPipe
