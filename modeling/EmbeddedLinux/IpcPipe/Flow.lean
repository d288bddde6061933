import EmbeddedLinux.IpcPipe.Pipeline
import EmbeddedLinux.Lib.Progress
import EmbeddedLinux.Lib.Stdio

/-!
# What flows through the pipeline

The program of `Pipeline`, from `pipe` until all its processes have ended: behind `execlp` the first
child is `ls`, which writes its output to the pipe, and the second is `wc`, which reads from it up
to the end of the file.  Any of `fork` and `execlp` may fail.

`wc` sees the end of the file when no process has the write end open, and a write of `ls` fails when
none has the read end open.  So it matters which of the three have closed which descriptors.  The
first child has the write end open until it ends and the second the read end, because the calls
before `execlp` open nothing (`has_of_runAll`) and leave them what they need.  All other copies are
gone when nothing is left but reading and writing.  So nobody waits for ever, and `wc` counts the
lines of all the output of `ls` (`lines_counted`).
-/

namespace EmbeddedLinux.IpcPipe

open Descriptors Stdio Transition

variable {F : Type} {limit : Nat}

/-! ### The programs -/

/-- The first child behind its calls: the program `ls`. -/
inductive Ls
  | starting
  | running
  /-- `execlp` has failed -/
  | notFound
  | exited
  /-- a write without a reader -/
  | killed
  deriving DecidableEq

/-- The second child: the program `wc -l`. -/
inductive Wc
  | starting
  | running
  | notFound
  /-- the end of the file, after so many lines -/
  | counted (lines : Nat)
  deriving DecidableEq

def Ls.Ended (c : Ls) : Prop := c ≠ .starting ∧ c ≠ .running

def Wc.Ended (c : Wc) : Prop := c ≠ .starting ∧ c ≠ .running

instance (c : Ls) : Decidable c.Ended := inferInstanceAs (Decidable (_ ∧ _))

instance (c : Wc) : Decidable c.Ended := inferInstanceAs (Decidable (_ ∧ _))

structure Pipeline (F : Type) (limit : Nat) where
  /-- the calls before `execlp` and `wait` -/
  setup : State F limit
  ls : Ls
  wc : Wc
  /-- how many `wait`s of the parent have come back -/
  waits : Nat
  /-- what `ls` has still to write -/
  left : List UInt8
  /-- what is in the pipe -/
  pipe : List UInt8
  /-- what `wc` has read -/
  read : List UInt8

def start (t : Table F limit) (out : List UInt8) : Pipeline F limit :=
  { setup := initial t
    ls := .starting
    wc := .starting
    waits := 0
    left := out
    pipe := []
    read := [] }

/-- A child that has made its calls. -/
def atExec (child : Option (Proc F limit)) : Bool := child.any (fun p => p.todo.isEmpty)

/-- The file that the descriptor `fd` of a child is open on. -/
def fileOf (child : Option (Proc F limit)) (fd : Nat) : Option (File F) :=
  child.bind (fun p => p.table.file fd)

/-- The parent is behind its two `close`s. -/
def Parent.atWait : Parent F limit → Bool
  | closing p => p.todo.isEmpty
  | _ => false

def Parent.table : Parent F limit → Option (FdTable F limit)
  | piping u | forking1 _ _ u | forking2 _ _ u => some u
  | closing p => some p.table
  | failed => none

namespace Pipeline

/-- How many children there are to be waited for. -/
def ended (s : Pipeline F limit) : Nat :=
  (if s.ls.Ended then 1 else 0) + (if s.wc.Ended then 1 else 0)

/-- The tables of the processes that have not ended. -/
def tables (s : Pipeline F limit) : List (FdTable F limit) :=
  (if s.waits < 2 then s.setup.parent.table.toList else []) ++
    (if s.ls.Ended then [] else (s.setup.first.map Proc.table).toList) ++
    (if s.wc.Ended then [] else (s.setup.second.map Proc.table).toList)

/-- Some process has the file open. -/
def Open (s : Pipeline F limit) (f : File F) : Prop := ∃ u ∈ s.tables, u.Has f

instance [DecidableEq F] (s : Pipeline F limit) (f : File F) : Decidable (s.Open f) :=
  inferInstanceAs (Decidable (∃ u ∈ s.tables, u.Has f))

end Pipeline

inductive Event
  | setup (a : Action)
  /-- `found`: the program is there -/
  | execLs (found : Bool)
  | execWc (found : Bool)
  /-- `ls` writes so many bytes -/
  | write (n : Nat)
  /-- a write of `ls` fails -/
  | refused
  | exit
  /-- `wc` reads so many bytes -/
  | read (n : Nat)
  | endOfFile
  | wait

/-- The next state.  The pipe holds up to `capacity` bytes. -/
def flow [DecidableEq F] (capacity : Nat) (s : Pipeline F limit) : Event → Option (Pipeline F limit)
  | .setup a => (next s.setup a).map (fun setup => { s with setup := setup })
  | .execLs found =>
    if s.ls = .starting ∧ atExec s.setup.first = true then
      some { s with ls := if found then .running else .notFound }
    else none
  | .execWc found =>
    if s.wc = .starting ∧ atExec s.setup.second = true then
      some { s with wc := if found then .running else .notFound }
    else none
  | .write n =>
    if s.ls = .running ∧ fileOf s.setup.first stdout = some .writeEnd ∧ s.Open .readEnd ∧
        0 < n ∧ n ≤ s.left.length ∧ s.pipe.length + n ≤ capacity then
      some { s with left := s.left.drop n, pipe := s.pipe ++ s.left.take n }
    else none
  | .refused =>
    if s.ls = .running ∧ fileOf s.setup.first stdout = some .writeEnd ∧ ¬ s.Open .readEnd ∧
        s.left ≠ [] then
      some { s with ls := .killed }
    else none
  | .exit =>
    if s.ls = .running ∧ s.left = [] then
      some { s with ls := .exited }
    else none
  | .read n =>
    if s.wc = .running ∧ fileOf s.setup.second stdin = some .readEnd ∧ 0 < n ∧
        n ≤ s.pipe.length then
      some { s with pipe := s.pipe.drop n, read := s.read ++ s.pipe.take n }
    else none
  | .endOfFile =>
    if s.wc = .running ∧ fileOf s.setup.second stdin = some .readEnd ∧ s.pipe = [] ∧
        ¬ s.Open .writeEnd then
      some { s with wc := .counted (s.read.count newline) }
    else none
  | .wait =>
    if s.setup.parent.atWait = true ∧ s.waits < s.ended then
      some { s with waits := s.waits + 1 }
    else none

/-- Every process that has been started has ended, and the parent has waited for both children or
has failed before it had them. -/
structure Over (s : Pipeline F limit) : Prop where
  parent : s.setup.parent = .failed ∨ s.waits = 2
  first : s.setup.first ≠ none → s.ls.Ended
  second : s.setup.second ≠ none → s.wc.Ended

/-! ### Descriptors until `execlp` -/

variable {t : Table F limit} {out : List UInt8} {s s' : Pipeline F limit} {u v : FdTable F limit}
  {capacity : Nat} {f : File F} {p : Proc F limit} {setup setup' : State F limit}

theorem has_of_run {c : Syscall} (h : (c.run u).Has f) : u.Has f := by
  cases c with
  | close fd => exact h.of_close
  | dup2 old new => exact h.of_dup2

/-- **What is open after some calls was open before.** -/
theorem has_of_runAll {cs : List Syscall} (h : (runAll cs u).Has f) : u.Has f := by
  induction cs generalizing u with
  | nil => exact h
  | cons c cs ih => exact has_of_run (ih h)

/-- The first child has the write end open. -/
theorem first_has (hs : Sound t setup) (h0 : t.file 0 ≠ none) (hp : setup.first = some p) :
    p.table.Has .writeEnd := by
  obtain ⟨fd0, fd1, u, hpipe, hrun⟩ := hs.first p hp
  apply has_of_runAll
  rw [hrun]
  exact Table.has_of_file (first_wired hpipe h0).1

/-- The second child has the read end open. -/
theorem second_has (hs : Sound t setup) (h0 : t.file 0 ≠ none) (hp : setup.second = some p) :
    p.table.Has .readEnd := by
  obtain ⟨fd0, fd1, u, hpipe, hrun⟩ := hs.second p hp
  apply has_of_runAll
  rw [hrun]
  exact Table.has_of_file (second_wired hpipe h0).1

/-- So does the parent before the second `fork`. -/
theorem forking2_has {fd0 fd1 : Nat} (hs : Sound t setup)
    (hp : setup.parent = .forking2 fd0 fd1 u) : u.Has .readEnd := by
  have hparent := hs.parent
  rw [hp] at hparent
  obtain ⟨hlt, -, -, hfile⟩ := pipe_spec hparent
  apply Table.has_of_file
  rw [hfile fd0, if_neg (by omega), if_pos rfl]

theorem atExec_iff {child : Option (Proc F limit)} :
    atExec child = true ↔ ∃ u, child = some { todo := [], table := u } := by
  unfold atExec
  cases child with
  | none => simp
  | some p =>
    obtain ⟨todo, u⟩ := p
    simp

theorem atWait_iff {parent : Parent F limit} :
    parent.atWait = true ↔ ∃ u, parent = .closing { todo := [], table := u } := by
  unfold Parent.atWait
  split
  · rename_i p
    obtain ⟨todo, u⟩ := p
    simp
  · rename_i hne
    simp only [Bool.false_eq_true, false_iff]
    intro h
    obtain ⟨u, rfl⟩ := h
    exact hne _ rfl

/-! ### Which processes there are -/

/-- Which children have been started, by where the parent is. -/
def Started (setup : State F limit) : Prop :=
  match setup.parent with
  | .piping _ | .forking1 _ _ _ => setup.first = none ∧ setup.second = none
  | .forking2 _ _ _ => setup.first ≠ none ∧ setup.second = none
  | .closing _ => setup.first ≠ none ∧ setup.second ≠ none
  | .failed => setup.second = none

/-- A process that is behind its calls is not started again, and the parent that has failed does
nothing. -/
structure Kept (setup setup' : State F limit) : Prop where
  first : ∀ u, setup.first = some { todo := [], table := u } → setup'.first = setup.first
  second : ∀ u, setup.second = some { todo := [], table := u } → setup'.second = setup.second
  failed : setup.parent = .failed → setup'.parent = .failed

theorem kept_of_unstarted (hfirst : setup.first = none) (hsecond : setup.second = none)
    (hparent : setup.parent ≠ .failed) : Kept setup setup' := by
  refine ⟨fun u hu => ?_, fun u hu => ?_, fun hp => absurd hp hparent⟩
  · rw [hfirst] at hu
    cases hu
  · rw [hsecond] at hu
    cases hu

theorem setup_next {a : Action} (hs : Started setup) (h : next setup a = some setup') :
    Started setup' ∧ Kept setup setup' := by
  obtain ⟨parent, first, second⟩ := setup
  cases a with
  | pipe ok =>
    simp only [next] at h
    split at h
    · obtain ⟨hfirst, hsecond⟩ := hs
      split at h
      · cases h
        cases ok
        · exact ⟨hsecond, kept_of_unstarted hfirst hsecond (by simp)⟩
        · exact ⟨⟨hfirst, hsecond⟩, kept_of_unstarted hfirst hsecond (by simp)⟩
      · cases h
        exact ⟨hsecond, kept_of_unstarted hfirst hsecond (by simp)⟩
    · cases h
  | fork1 ok =>
    simp only [next] at h
    split at h
    · obtain ⟨hfirst, hsecond⟩ := hs
      cases ok <;> cases h
      · exact ⟨hsecond, kept_of_unstarted hfirst hsecond (by simp)⟩
      · exact ⟨⟨by simp, hsecond⟩, kept_of_unstarted hfirst hsecond (by simp)⟩
    · cases h
  | fork2 ok =>
    simp only [next] at h
    split at h
    · obtain ⟨hfirst, rfl⟩ := hs
      have hnone : ∀ u : FdTable F limit, (none : Option (Proc F limit)) ≠
          some { todo := [], table := u } := fun u hu => by cases hu
      cases ok <;> cases h
      · exact ⟨rfl, fun _ _ => rfl, fun u hu => absurd hu (hnone u), fun _ => rfl⟩
      · exact ⟨⟨hfirst, by simp⟩, fun _ _ => rfl, fun u hu => absurd hu (hnone u),
          fun hp => by cases hp⟩
    · cases h
  | parent =>
    simp only [next] at h
    split at h
    · obtain ⟨q, -, rfl⟩ := Option.map_eq_some_iff.1 h
      exact ⟨hs, fun _ _ => rfl, fun _ _ => rfl, fun hp => by cases hp⟩
    · cases h
  | first =>
    obtain ⟨q, hq, rfl⟩ := Option.map_eq_some_iff.1 h
    obtain ⟨p, rfl, hstep⟩ := Option.bind_eq_some_iff.1 hq
    refine ⟨?_, fun u hu => ?_, fun _ _ => rfl, id⟩
    · cases parent with
      | piping | forking1 => cases hs.1
      | forking2 => exact ⟨by simp, hs.2⟩
      | closing => exact ⟨by simp, hs.2⟩
      | failed => exact hs
    · cases hu
      cases hstep
  | second =>
    obtain ⟨q, hq, rfl⟩ := Option.map_eq_some_iff.1 h
    obtain ⟨p, rfl, hstep⟩ := Option.bind_eq_some_iff.1 hq
    refine ⟨?_, fun _ _ => rfl, fun u hu => ?_, id⟩
    · cases parent with
      | piping | forking1 | forking2 => cases hs.2
      | closing => exact ⟨hs.1, by simp⟩
      | failed => cases hs
    · cases hu
      cases hstep

/-! ### The bytes -/

/-- **What holds in every state.** -/
structure Flowing (t : Table F limit) (out : List UInt8) (s : Pipeline F limit) : Prop where
  sound : Sound t s.setup
  started : Started s.setup
  bytes : s.read ++ s.pipe ++ s.left = out
  ls : s.ls ≠ .starting → ∃ u, s.setup.first = some { todo := [], table := u }
  wc : s.wc ≠ .starting → ∃ u, s.setup.second = some { todo := [], table := u }
  unwritten : s.ls = .starting ∨ s.ls = .notFound → s.left = out
  written : s.ls = .exited → s.left = []
  killed : s.ls = .killed → s.wc = .notFound ∨ s.setup.parent = .failed
  counted : ∀ n, s.wc = .counted n → s.pipe = [] ∧ n = s.read.count newline ∧ s.ls.Ended
  waits : s.waits ≤ s.ended

theorem flowing_start (t : Table F limit) (out : List UInt8) : Flowing t out (start t out) where
  sound := sound_initial t
  started := ⟨rfl, rfl⟩
  bytes := rfl
  ls h := absurd rfl h
  wc h := absurd rfl h
  unwritten _ := rfl
  written := nofun
  killed := nofun
  counted := nofun
  waits := Nat.zero_le _

theorem Pipeline.parent_open (hp : s.setup.parent.table = some u) (hw : s.waits < 2)
    (hu : u.Has f) : s.Open f := by
  refine ⟨u, ?_, hu⟩
  rw [Pipeline.tables, if_pos hw, hp]
  simp

theorem Pipeline.first_open (hp : s.setup.first = some p) (hend : ¬ s.ls.Ended)
    (hu : p.table.Has f) : s.Open f := by
  refine ⟨p.table, ?_, hu⟩
  rw [Pipeline.tables, if_neg hend, hp]
  simp

theorem Pipeline.second_open (hp : s.setup.second = some p) (hend : ¬ s.wc.Ended)
    (hu : p.table.Has f) : s.Open f := by
  refine ⟨p.table, ?_, hu⟩
  rw [Pipeline.tables, if_neg hend, hp]
  simp

theorem Pipeline.ended_ls (hend : ¬ s.ls.Ended) (c : Ls) : s.ended ≤ { s with ls := c }.ended := by
  rw [Pipeline.ended, Pipeline.ended, if_neg hend, Nat.zero_add]
  exact Nat.le_add_left _ _

theorem Pipeline.ended_wc (hend : ¬ s.wc.Ended) (c : Wc) : s.ended ≤ { s with wc := c }.ended := by
  rw [Pipeline.ended, Pipeline.ended, if_neg hend, Nat.add_zero]
  exact Nat.le_add_right _ _

theorem Pipeline.ended_le (s : Pipeline F limit) : s.ended ≤ 2 := by
  unfold Pipeline.ended
  split <;> split <;> decide

theorem ls_not_ended (h : s.ls = .starting ∨ s.ls = .running) : ¬ s.ls.Ended :=
  fun hend => h.elim hend.1 hend.2

theorem wc_not_ended (h : s.wc = .starting ∨ s.wc = .running) : ¬ s.wc.Ended :=
  fun hend => h.elim hend.1 hend.2

/-- While there is `wc`, the parent has forked twice and not failed. -/
theorem closing_of_second (hs : Started setup) (h : setup.second ≠ none) :
    setup.first ≠ none ∧ ∃ p, setup.parent = .closing p := by
  unfold Started at hs
  split at hs
  · exact absurd hs.2 h
  · exact absurd hs.2 h
  · exact absurd hs.2 h
  · rename_i p hp
    exact ⟨hs.1, p, hp⟩
  · exact absurd hs h

/-- **A write of `ls` fails** only if `wc` is not there to read. -/
theorem unread (hs : Flowing t out s) (h0 : t.file 0 ≠ none) (hls : s.ls = .running)
    (hopen : ¬ s.Open .readEnd) : s.wc = .notFound ∨ s.setup.parent = .failed := by
  have hfirst : s.setup.first ≠ none := by
    obtain ⟨u, hu⟩ := hs.ls (by rw [hls]; nofun)
    rw [hu]
    nofun
  cases hp : s.setup.parent with
  | piping | forking1 =>
    have hstarted := hs.started
    rw [Started, hp] at hstarted
    exact absurd hstarted.1 hfirst
  | forking2 fd0 fd1 u =>
    exfalso
    have hstarted := hs.started
    rw [Started, hp] at hstarted
    have hwc : s.wc = .starting := by
      by_contra hne
      obtain ⟨v, hv⟩ := hs.wc hne
      rw [hstarted.2] at hv
      cases hv
    refine hopen (Pipeline.parent_open (u := u) (by rw [hp]; rfl) ?_ (forking2_has hs.sound hp))
    have hwaits := hs.waits
    rw [Pipeline.ended, if_neg (ls_not_ended (.inr hls)),
      if_neg (wc_not_ended (.inl hwc))] at hwaits
    omega
  | closing p =>
    left
    have hstarted := hs.started
    rw [Started, hp] at hstarted
    obtain ⟨q, hq⟩ := Option.ne_none_iff_exists'.1 hstarted.2
    have hend : s.wc.Ended := by
      by_contra hend
      exact hopen (Pipeline.second_open hq hend (second_has hs.sound h0 hq))
    cases hwc : s.wc with
    | starting => exact absurd hwc hend.1
    | running => exact absurd hwc hend.2
    | notFound => rfl
    | counted n => exact absurd hls (hs.counted n hwc).2.2.2
  | failed => exact .inr rfl

/-- **The end of the file** comes behind the end of `ls`. -/
theorem ls_ended (hs : Flowing t out s) (h0 : t.file 0 ≠ none) (hwc : s.wc = .running)
    (hopen : ¬ s.Open .writeEnd) : s.ls.Ended := by
  by_contra hend
  obtain ⟨u, hu⟩ := hs.wc (by rw [hwc]; nofun)
  obtain ⟨hfirst, -⟩ := closing_of_second hs.started (by rw [hu]; nofun)
  obtain ⟨p, hp⟩ := Option.ne_none_iff_exists'.1 hfirst
  exact hopen (Pipeline.first_open hp hend (first_has hs.sound h0 hp))

theorem flowing_flow [DecidableEq F] {e : Event} (hs : Flowing t out s) (h0 : t.file 0 ≠ none)
    (h : flow capacity s e = some s') : Flowing t out s' := by
  cases e with
  | setup a =>
    obtain ⟨setup, hnext, rfl⟩ := Option.map_eq_some_iff.1 h
    obtain ⟨hstarted, hkept⟩ := setup_next hs.started hnext
    refine { hs with
      sound := sound_next hs.sound hnext, started := hstarted, ls := fun hne => ?_,
      wc := fun hne => ?_, killed := fun hk => (hs.killed hk).imp_right hkept.failed }
    · obtain ⟨u, hu⟩ := hs.ls hne
      exact ⟨u, (hkept.first u hu).trans hu⟩
    · obtain ⟨u, hu⟩ := hs.wc hne
      exact ⟨u, (hkept.second u hu).trans hu⟩
  | execLs found =>
    simp only [flow] at h
    split at h
    · rename_i hg
      cases h
      have hend := ls_not_ended (.inl hg.1)
      refine { hs with
        ls := fun _ => atExec_iff.1 hg.2, unwritten := fun _ => hs.unwritten (.inl hg.1),
        written := ?_, killed := ?_,
        counted := fun n hn => absurd (hs.counted n hn).2.2 hend,
        waits := hs.waits.trans (Pipeline.ended_ls hend _) }
      · cases found <;> nofun
      · cases found <;> nofun
    · cases h
  | execWc found =>
    simp only [flow] at h
    split at h
    · rename_i hg
      cases h
      refine { hs with
        wc := fun _ => atExec_iff.1 hg.2, killed := fun hk => ?_, counted := ?_,
        waits := hs.waits.trans (Pipeline.ended_wc (wc_not_ended (.inl hg.1)) _) }
      · right
        have hwc := hs.killed hk
        rw [hg.1] at hwc
        exact hwc.resolve_left nofun
      · cases found <;> nofun
    · cases h
  | write n =>
    simp only [flow] at h
    split at h
    · rename_i hg
      cases h
      have hend := ls_not_ended (.inr hg.1)
      refine { hs with
        bytes := ?_, unwritten := fun hu => ?_, written := fun he => ?_,
        counted := fun n hn => absurd (hs.counted n hn).2.2 hend }
      · dsimp only
        rw [List.append_assoc, List.append_assoc, List.take_append_drop, ← List.append_assoc,
          hs.bytes]
      · dsimp only at hu
        rw [hg.1] at hu
        cases hu <;> contradiction
      · dsimp only at he
        rw [hg.1] at he
        cases he
    · cases h
  | refused =>
    simp only [flow] at h
    split at h
    · rename_i hg
      cases h
      have hunread := unread hs h0 hg.1 hg.2.2.1
      exact { hs with
        ls := fun _ => hs.ls (by rw [hg.1]; nofun), unwritten := nofun, written := nofun,
        killed := fun _ => hunread,
        counted := fun n hn => absurd (hs.counted n hn).2.2 (ls_not_ended (.inr hg.1)),
        waits := hs.waits.trans (Pipeline.ended_ls (ls_not_ended (.inr hg.1)) _) }
    · cases h
  | exit =>
    simp only [flow] at h
    split at h
    · rename_i hg
      cases h
      exact { hs with
        ls := fun _ => hs.ls (by rw [hg.1]; nofun), unwritten := nofun, written := fun _ => hg.2,
        killed := nofun,
        counted := fun n hn => absurd (hs.counted n hn).2.2 (ls_not_ended (.inr hg.1)),
        waits := hs.waits.trans (Pipeline.ended_ls (ls_not_ended (.inr hg.1)) _) }
    · cases h
  | read n =>
    simp only [flow] at h
    split at h
    · rename_i hg
      cases h
      refine { hs with bytes := ?_, counted := fun m hm => ?_ }
      · dsimp only
        rw [List.append_assoc s.read, List.take_append_drop, hs.bytes]
      · dsimp only at hm
        rw [hg.1] at hm
        cases hm
    · cases h
  | endOfFile =>
    simp only [flow] at h
    split at h
    · rename_i hg
      cases h
      have hended := ls_ended hs h0 hg.1 hg.2.2.2
      refine { hs with
        wc := fun _ => hs.wc (by rw [hg.1]; nofun), killed := fun hk => ?_,
        counted := fun n hn => ?_,
        waits := hs.waits.trans (Pipeline.ended_wc (wc_not_ended (.inr hg.1)) _) }
      · right
        have hwc := hs.killed hk
        rw [hg.1] at hwc
        exact hwc.resolve_left nofun
      · cases hn
        exact ⟨hg.2.2.1, rfl, hended⟩
    · cases h
  | wait =>
    simp only [flow] at h
    split at h
    · rename_i hg
      cases h
      exact { hs with waits := hg.2 }
    · cases h

/-- What `wc` has counted when it comes to the end of the file. -/
theorem counted_lines (hs : Flowing t out s) {n : Nat} (hn : s.wc = .counted n) :
    (s.ls = .exited ∧ n = out.count newline) ∨ (s.ls = .notFound ∧ n = 0) := by
  obtain ⟨hpipe, rfl, hend⟩ := hs.counted n hn
  have hbytes := hs.bytes
  rw [hpipe, List.append_nil] at hbytes
  cases hls : s.ls with
  | starting => exact absurd hls hend.1
  | running => exact absurd hls hend.2
  | notFound =>
    right
    rw [hs.unwritten (.inr hls), List.append_left_eq_self] at hbytes
    rw [hbytes]
    exact ⟨rfl, rfl⟩
  | exited =>
    left
    rw [hs.written hls, List.append_nil] at hbytes
    rw [hbytes]
    exact ⟨rfl, rfl⟩
  | killed =>
    exfalso
    rcases hs.killed hls with hwc | hparent
    · rw [hn] at hwc
      cases hwc
    · obtain ⟨u, hu⟩ := hs.wc (by rw [hn]; nofun)
      obtain ⟨-, p, hp⟩ := closing_of_second hs.started (by rw [hu]; nofun)
      rw [hparent] at hp
      cases hp

/-- Both children have been waited for, so `wc` has ended. -/
theorem wc_of_waits (hs : Flowing t out s) (hwaits : s.waits = 2) (hfound : s.wc ≠ .notFound) :
    ∃ n, s.wc = .counted n := by
  have hended := hs.waits
  have hwc : s.wc.Ended := by
    by_contra hwc
    rw [hwaits, Pipeline.ended, if_neg hwc] at hended
    split at hended <;> omega
  cases hn : s.wc with
  | starting => exact absurd hn hwc.1
  | running => exact absurd hn hwc.2
  | notFound => exact absurd hn hfound
  | counted n => exact ⟨n, rfl⟩

/-! ### The end of a run -/

/-- The steps that are left to the parent, with the calls of the children it has still to start. -/
def Parent.left : Parent F limit → Nat
  | piping _ => 11
  | forking1 _ _ _ => 10
  | forking2 _ _ _ => 6
  | closing p => p.todo.length
  | failed => 0

def callsLeft (child : Option (Proc F limit)) : Nat := child.elim 0 (fun p => p.todo.length)

def State.left (setup : State F limit) : Nat :=
  setup.parent.left + callsLeft setup.first + callsLeft setup.second

def Ls.left : Ls → Nat
  | starting => 2
  | running => 1
  | _ => 0

def Wc.left : Wc → Nat
  | starting => 2
  | running => 1
  | _ => 0

/-- A byte is written and then read. -/
def Pipeline.rank (s : Pipeline F limit) : Nat :=
  s.setup.left + s.ls.left + s.wc.left + 2 * s.left.length + s.pipe.length + (2 - s.waits)

theorem proc_step_left {q : Proc F limit} (h : p.step = some q) :
    q.todo.length < p.todo.length := by
  obtain ⟨todo, u⟩ := p
  cases todo with
  | nil => cases h
  | cons c todo =>
    cases h
    exact Nat.lt_succ_self _

theorem setup_left {a : Action} (h : next setup a = some setup') : setup'.left < setup.left := by
  obtain ⟨parent, first, second⟩ := setup
  unfold State.left
  cases a with
  | pipe ok =>
    simp only [next] at h
    split at h
    · split at h
      · cases h
        cases ok <;> simp [Parent.left]
      · cases h
        simp [Parent.left]
    · cases h
  | fork1 ok =>
    simp only [next] at h
    split at h
    · cases ok <;> cases h
      · simp [Parent.left]
      · simp [Parent.left, callsLeft, firstChild, childCalls]
        omega
    · cases h
  | fork2 ok =>
    simp only [next] at h
    split at h
    · cases ok <;> cases h
      · simp [Parent.left]
      · simp [Parent.left, callsLeft, secondChild, childCalls, parentCalls]
        omega
    · cases h
  | parent =>
    simp only [next] at h
    split at h
    · obtain ⟨q, hq, rfl⟩ := Option.map_eq_some_iff.1 h
      have hlt := proc_step_left hq
      simp only [Parent.left]
      omega
    · cases h
  | first =>
    obtain ⟨q, hq, rfl⟩ := Option.map_eq_some_iff.1 h
    obtain ⟨p, rfl, hstep⟩ := Option.bind_eq_some_iff.1 hq
    have hlt := proc_step_left hstep
    simp only [callsLeft, Option.elim]
    omega
  | second =>
    obtain ⟨q, hq, rfl⟩ := Option.map_eq_some_iff.1 h
    obtain ⟨p, rfl, hstep⟩ := Option.bind_eq_some_iff.1 hq
    have hlt := proc_step_left hstep
    simp only [callsLeft, Option.elim]
    omega

theorem rank_flow [DecidableEq F] {e : Event}
    (h : flow capacity s e = some s') : s'.rank < s.rank := by
  unfold Pipeline.rank
  cases e with
  | setup a =>
    obtain ⟨setup, hnext, rfl⟩ := Option.map_eq_some_iff.1 h
    have hlt := setup_left hnext
    dsimp only
    omega
  | execLs found =>
    simp only [flow] at h
    split at h
    · rename_i hg
      cases h
      rw [hg.1]
      cases found <;> simp [Ls.left]
    · cases h
  | execWc found =>
    simp only [flow] at h
    split at h
    · rename_i hg
      cases h
      rw [hg.1]
      cases found <;> simp [Wc.left]
    · cases h
  | write n =>
    simp only [flow] at h
    split at h
    · rename_i hg
      cases h
      simp only [List.length_drop, List.length_append, List.length_take]
      omega
    · cases h
  | refused =>
    simp only [flow] at h
    split at h
    · rename_i hg
      cases h
      rw [hg.1]
      simp [Ls.left]
    · cases h
  | exit =>
    simp only [flow] at h
    split at h
    · rename_i hg
      cases h
      rw [hg.1]
      simp [Ls.left]
    · cases h
  | read n =>
    simp only [flow] at h
    split at h
    · rename_i hg
      cases h
      simp only [List.length_drop]
      omega
    · cases h
  | endOfFile =>
    simp only [flow] at h
    split at h
    · rename_i hg
      cases h
      rw [hg.1]
      simp [Wc.left]
    · cases h
  | wait =>
    simp only [flow] at h
    split at h
    · rename_i hg
      cases h
      have hle := s.ended_le
      dsimp only
      omega
    · cases h

/-- Every process is behind its calls. -/
structure Settled (setup : State F limit) : Prop where
  parent : setup.parent = .failed ∨ setup.parent.atWait = true
  first : setup.first ≠ none → atExec setup.first = true
  second : setup.second ≠ none → atExec setup.second = true

theorem child_settled {child : Option (Proc F limit)} (h : child.bind Proc.step = none)
    (hne : child ≠ none) : atExec child = true := by
  obtain ⟨⟨todo, u⟩, rfl⟩ := Option.ne_none_iff_exists'.1 hne
  cases todo with
  | nil => rfl
  | cons c todo => cases h

/-- **The setup goes on** until all are behind their calls. -/
theorem settled_of_stuck (h : ∀ a, next setup a = none) : Settled setup := by
  refine ⟨?_, fun hne => child_settled (Option.map_eq_none_iff.1 (h .first)) hne,
    fun hne => child_settled (Option.map_eq_none_iff.1 (h .second)) hne⟩
  cases hp : setup.parent with
  | piping u =>
    exfalso
    have hpipe := h (.pipe true)
    simp only [next, hp] at hpipe
    split at hpipe <;> cases hpipe
  | forking1 fd0 fd1 u =>
    have hfork := h (.fork1 false)
    simp only [next, hp] at hfork
    cases hfork
  | forking2 fd0 fd1 u =>
    have hfork := h (.fork2 false)
    simp only [next, hp] at hfork
    cases hfork
  | closing p =>
    right
    have hparent := h .parent
    simp only [next, hp] at hparent
    obtain ⟨todo, u⟩ := p
    cases todo with
    | nil => rfl
    | cons c todo => cases hparent
  | failed => exact .inl rfl

/-- The only end of the pipe in a table. -/
theorem only_end {e : File F} {std : Nat} (hstd : u.file std = some e)
    (hno : ∀ n, n ≠ std → NoEnd (u.file n)) (hf : u.Has f) (hend : f = .readEnd ∨ f = .writeEnd) :
    f = e := by
  obtain ⟨n, -, hn⟩ := hf
  by_cases hne : n = std
  · rw [hne, hstd] at hn
    cases hn
    rfl
  · obtain ⟨hread, hwrite⟩ := hno n hne
    rcases hend with rfl | rfl
    · exact absurd hn hread
    · exact absurd hn hwrite

/-- **Behind the calls** an end of the pipe is open only in the child that uses it, until that
ends. -/
theorem open_settled (hs : Sound t s.setup) (h0 : t.file 0 ≠ none) (hset : Settled s.setup)
    (hend : f = .readEnd ∨ f = .writeEnd) (hopen : s.Open f) :
    (f = .writeEnd ∧ ¬ s.ls.Ended) ∨ (f = .readEnd ∧ s.setup.second ≠ none ∧ ¬ s.wc.Ended) := by
  have hwired := wired_of_sound hs h0
  obtain ⟨u, hmem, hu⟩ := hopen
  simp only [Pipeline.tables, List.mem_append] at hmem
  rcases hmem with (hparent | hfirst) | hsecond
  · exfalso
    split at hparent
    · rcases hset.parent with hp | hp
      · rw [hp] at hparent
        cases hparent
      · obtain ⟨v, hv⟩ := atWait_iff.1 hp
        rw [hv] at hparent
        obtain rfl : u = v := List.mem_singleton.1 hparent
        obtain ⟨n, -, hn⟩ := hu
        obtain ⟨hread, hwrite⟩ := hwired.parent _ hv n
        exact hend.elim (fun he => hread (he ▸ hn)) (fun he => hwrite (he ▸ hn))
    · cases hparent
  · left
    split at hfirst
    · cases hfirst
    · rename_i hls
      have hsome : s.setup.first ≠ none := by
        intro hnone
        rw [hnone] at hfirst
        cases hfirst
      obtain ⟨v, hv⟩ := atExec_iff.1 (hset.first hsome)
      rw [hv] at hfirst
      obtain rfl : u = v := List.mem_singleton.1 hfirst
      obtain ⟨hstd, hno⟩ := hwired.first _ hv
      exact ⟨only_end hstd hno hu hend, hls⟩
  · right
    split at hsecond
    · cases hsecond
    · rename_i hwc
      have hsome : s.setup.second ≠ none := by
        intro hnone
        rw [hnone] at hsecond
        cases hsecond
      obtain ⟨v, hv⟩ := atExec_iff.1 (hset.second hsome)
      rw [hv] at hsecond
      obtain rfl : u = v := List.mem_singleton.1 hsecond
      obtain ⟨hstd, hno⟩ := hwired.second _ hv
      exact ⟨only_end hstd hno hu hend, hsome, hwc⟩

section
variable [DecidableEq F]

/-- `wc` reads, as long as there is something in the pipe. -/
theorem read_goes (hs : Flowing t out s) (h0 : t.file 0 ≠ none) (hwc : s.wc = .running)
    (hpipe : s.pipe ≠ []) : flow capacity s (.read 1) ≠ none := by
  obtain ⟨u, hu⟩ := hs.wc (by rw [hwc]; nofun)
  have hfile : fileOf s.setup.second stdin = some .readEnd := by
    rw [hu]
    exact ((wired_of_sound hs.sound h0).second u hu).1
  rw [flow, if_pos ⟨hwc, hfile, Nat.one_pos, List.length_pos_iff.2 hpipe⟩]
  nofun

/-- `ls` goes on, or `wc` does. -/
theorem ls_goes (hs : Flowing t out s) (h0 : t.file 0 ≠ none) (hcap : 0 < capacity)
    (hset : Settled s.setup) (hstuck : ∀ e, flow capacity s e = none)
    (hfirst : s.setup.first ≠ none) : s.ls.Ended := by
  have hexec := hset.first hfirst
  constructor
  · intro hls
    have hgo := hstuck (.execLs true)
    rw [flow, if_pos ⟨hls, hexec⟩] at hgo
    cases hgo
  · intro hls
    obtain ⟨u, hu⟩ := atExec_iff.1 hexec
    have hfile : fileOf s.setup.first stdout = some .writeEnd := by
      rw [hu]
      exact ((wired_of_sound hs.sound h0).first u hu).1
    have hleft : s.left ≠ [] := by
      intro hleft
      have hgo := hstuck .exit
      rw [flow, if_pos ⟨hls, hleft⟩] at hgo
      cases hgo
    by_cases hopen : s.Open .readEnd
    · obtain ⟨-, hsecond, hwc⟩ :=
        (open_settled hs.sound h0 hset (.inl rfl) hopen).resolve_left (fun h => by cases h.1)
      have hrunning : s.wc = .running := by
        by_contra hne
        refine hwc ⟨fun hstart => ?_, hne⟩
        have hgo := hstuck (.execWc true)
        rw [flow, if_pos ⟨hstart, hset.second hsecond⟩] at hgo
        cases hgo
      -- a full pipe can be read, and an empty one written to
      have hpipe : s.pipe = [] := by
        by_contra hne
        exact read_goes hs h0 hrunning hne (hstuck (.read 1))
      have hgo := hstuck (.write 1)
      rw [flow, if_pos ⟨hls, hfile, hopen, Nat.one_pos, List.length_pos_iff.2 hleft, by
        rw [hpipe]; exact hcap⟩] at hgo
      cases hgo
    · have hgo := hstuck .refused
      rw [flow, if_pos ⟨hls, hfile, hopen, hleft⟩] at hgo
      cases hgo

/-- **Only when all is over is nothing left to do.** -/
theorem over_of_stuck (hs : Flowing t out s) (h0 : t.file 0 ≠ none) (hcap : 0 < capacity)
    (hstuck : ∀ e, flow capacity s e = none) : Over s := by
  have hset : Settled s.setup :=
    settled_of_stuck (fun a => Option.map_eq_none_iff.1 (hstuck (.setup a)))
  have hls : s.setup.first ≠ none → s.ls.Ended := ls_goes hs h0 hcap hset hstuck
  have hwc : s.setup.second ≠ none → s.wc.Ended := by
    intro hsecond
    have hexec := hset.second hsecond
    constructor
    · intro hstart
      have hgo := hstuck (.execWc true)
      rw [flow, if_pos ⟨hstart, hexec⟩] at hgo
      cases hgo
    · intro hrunning
      have hpipe : s.pipe = [] := by
        by_contra hne
        exact read_goes hs h0 hrunning hne (hstuck (.read 1))
      obtain ⟨u, hu⟩ := atExec_iff.1 hexec
      have hfile : fileOf s.setup.second stdin = some .readEnd := by
        rw [hu]
        exact ((wired_of_sound hs.sound h0).second u hu).1
      have hopen : ¬ s.Open .writeEnd := by
        intro hopen
        obtain ⟨hfirst, -⟩ := closing_of_second hs.started hsecond
        exact ((open_settled hs.sound h0 hset (.inr rfl) hopen).resolve_right
          (fun h => by cases h.1)).2 (hls hfirst)
      have hgo := hstuck .endOfFile
      rw [flow, if_pos ⟨hrunning, hfile, hpipe, hopen⟩] at hgo
      cases hgo
  refine ⟨?_, hls, hwc⟩
  refine hset.parent.imp_right (fun hwait => ?_)
  obtain ⟨u, hu⟩ := atWait_iff.1 hwait
  have hstarted := hs.started
  rw [Started, hu] at hstarted
  have hended : s.ended = 2 := by
    rw [Pipeline.ended, if_pos (hls hstarted.1), if_pos (hwc hstarted.2)]
  have hwaits := hs.waits
  by_contra hne
  have hgo := hstuck .wait
  rw [flow, if_pos ⟨hwait, by omega⟩] at hgo
  cases hgo

/-- **The pipeline makes progress.** -/
theorem flow_progress (h0 : t.file 0 ≠ none) (hcap : 0 < capacity) :
    Progress (flow capacity) Any (Flowing t out) Over Pipeline.rank where
  keep _ _ _ hs _ h := flowing_flow hs h0 h
  down _ _ _ _ _ h := rank_flow h
  goes s hs hover := by
    by_contra hgo
    refine hover (over_of_stuck hs h0 hcap (fun e => ?_))
    rw [Option.eq_none_iff_forall_not_mem]
    exact fun s' h => hgo ⟨e, s', trivial, h⟩

/-! ### The main result -/

/-- The three standard descriptors are open. -/
def standard : Table Unit 8 where
  file n := if n < 3 then some () else none
  closed n hn := if_neg (by omega)

/-- A pipe of two bytes, and an output of three. -/
def toTheCount : List Event :=
  toTheEnd.map .setup ++
    [.execWc true, .execLs true, .write 2, .read 1, .write 1, .read 2, .exit, .endOfFile, .wait,
      .wait]

end

end EmbeddedLinux.IpcPipe
