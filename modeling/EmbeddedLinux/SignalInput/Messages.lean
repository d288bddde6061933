import EmbeddedLinux.Lib.Stdio
import Mathlib.Data.List.Chain
import Mathlib.Data.List.Infix
import Mathlib.Data.List.DropRight

/-!
# Signals through a pipe

`signal_thread` writes a line for every signal, and `main` looks for the words `SIGINT` and
`SIGTERM` in what one `read` gives.  The lines have no other boundaries than their
newlines, and `main` does not look at these: a read may hold several lines, or
a part of one.  A round of `main` is one return of `select` without an error, with what
`fgets` and `read` give in it.

`main` prints one line for each signal and ends with `SIGTERM` exactly when each read holds
no word or one, whole: `signals_received_iff`.  A read that holds both words is taken for a
`SIGINT`, and then nothing ends the program.
-/

namespace EmbeddedLinux.SignalInput

open CString Stdio

/-- The signals `sigwait` is called for. -/
inductive Sig
  | sigint
  | sigterm

def Sig.word : Sig → List UInt8
  | .sigint => text "SIGINT"
  | .sigterm => text "SIGTERM"

/-- The text written to the pipe. -/
def Sig.msg (sig : Sig) : List UInt8 := sig.word ++ [newline]

/-- What `signal_thread` writes for the signals that `sigwait` accepts.  It ends with the
first `SIGTERM`. -/
def signalThread : List Sig → List UInt8
  | [] => []
  | .sigint :: sigs => Sig.sigint.msg ++ signalThread sigs
  | .sigterm :: _ => Sig.sigterm.msg

/-! ### The loop of `main` -/

/-- What `main` prints in its loop. -/
inductive Output
  | userInput (line : List UInt8)
  | sigintReceived
  | sigtermReceived
  deriving DecidableEq

def Output.text : Output → List UInt8
  | .userInput line => CString.text "User input: " ++ line
  | .sigintReceived => CString.text "SIGINT received.\n"
  | .sigtermReceived => CString.text "SIGTERM received. Exiting program.\n"

def Output.isSignal : Output → Bool
  | .userInput _ => false
  | .sigintReceived | .sigtermReceived => true

/-- What a round finds: the line that `fgets` returns, if standard input is readable, and the
bytes that `read` gives, if the pipe is. -/
structure Round where
  user : Option (List UInt8)
  msg : Option (List UInt8)

/-- `char msg[64]` -/
abbrev msgSize : Nat := 64

/-- `char msg[64] = {0}; read(pipe_fd[0], msg, sizeof(msg));` -/
def msgArray (bytes : List UInt8) : List UInt8 := List.ofFn (fun i : Fin msgSize => bytes.getD i 0)

/-- The lines printed, whether the loop has been left, and the arrays that were searched. -/
structure Loop where
  out : List Output
  left : Bool
  searched : List (List UInt8)

/-- What comes before the other rounds. -/
def Loop.after (l : Loop) (out : List Output) (searched : List (List UInt8)) : Loop :=
  { l with out := out ++ l.out, searched := searched ++ l.searched }

/-- The line of `printf("User input: %s", buffer)`, if there is one. -/
def userOutput (user : Option (List UInt8)) : List Output :=
  match user with
  | some line => [.userInput line]
  | none => []

/-- The loop of `main`. -/
def mainLoop : List Round → Loop
  | [] => { out := [], left := false, searched := [] }
  | r :: rounds =>
    match r.msg with
    | none => (mainLoop rounds).after (userOutput r.user) []
    | some bytes =>
      let msg := msgArray bytes
      if strstr msg Sig.sigint.word then
        (mainLoop rounds).after (userOutput r.user ++ [.sigintReceived]) [msg]
      else if strstr msg Sig.sigterm.word then
        { out := userOutput r.user ++ [.sigtermReceived], left := true, searched := [msg] }
      else (mainLoop rounds).after (userOutput r.user) [msg]

/-- What the rounds read from the pipe. -/
def reads (rounds : List Round) : List (List UInt8) := rounds.filterMap Round.msg

/-! ### The property and the condition -/

/-- `k` times `SIGINT` and a `SIGTERM` -/
def accepted (k : Nat) : List Sig := List.replicate k .sigint ++ [.sigterm]

/-- `main` prints a line for each signal, in order; it has left its loop when the word `SIGTERM`
has been read and not before; and each array that it searches has a NUL. -/
def Received (k : Nat) (rounds : List Round) : Prop :=
  (mainLoop rounds).out.filter Output.isSignal =
      List.replicate k .sigintReceived ++ [.sigtermReceived] ∧
    (∀ n, (mainLoop (rounds.take n)).left = true ↔
      Sig.sigterm.word <:+: (reads (rounds.take n)).flatten) ∧
    ∀ msg ∈ (mainLoop rounds).searched, 0 ∈ msg

/-- The bytes without the newlines at both ends. -/
def trim (bytes : List UInt8) : List UInt8 :=
  (bytes.dropWhile (· == newline)).rdropWhile (· == newline)

/-- No word or one, whole. -/
def OneWord (bytes : List UInt8) : Prop :=
  trim bytes = [] ∨ trim bytes = Sig.sigint.word ∨ trim bytes = Sig.sigterm.word

/-! ### The contents of `msg` -/

theorem cstr_msgArray {bytes : List UInt8} (hlen : bytes.length ≤ msgSize) (h0 : 0 ∉ bytes) :
    cstr (msgArray bytes) = bytes := by
  by_cases hlt : bytes.length < msgSize
  · apply cstr_ofFn h0 hlt
    · intro i hi
      exact (List.getElem_eq_getD 0).symm
    · rw [List.getD_eq_getElem?_getD, List.getElem?_eq_none (Nat.le_refl _)]
      rfl
  · have heq : msgArray bytes = bytes := by
      apply List.ext_getElem
      · rw [msgArray, List.length_ofFn]
        omega
      · intro i h1 h2
        simp only [msgArray, List.getElem_ofFn]
        exact (List.getElem_eq_getD 0).symm
    rw [heq]
    exact cstr_of_zero_notMem h0

/-- The array has a NUL when it was not filled. -/
theorem zero_mem_msgArray {bytes : List UInt8} (hlt : bytes.length < msgSize) :
    0 ∈ msgArray bytes := by
  rw [msgArray, List.mem_ofFn]
  refine ⟨⟨bytes.length, hlt⟩, ?_⟩
  rw [List.getD_eq_getElem?_getD, List.getElem?_eq_none (Nat.le_refl _)]
  rfl

/-! ### The stream -/

def letters (bytes : List UInt8) : Nat := bytes.countP (· != newline)

theorem letters_append (a b : List UInt8) : letters (a ++ b) = letters a + letters b :=
  List.countP_append

theorem letters_cons (x : UInt8) (bytes : List UInt8) :
    letters (x :: bytes) = letters bytes + if x = newline then 0 else 1 := by
  by_cases h : x = newline <;> simp [letters, h]

/-- `N` stands in `SIGINT` and not in `SIGTERM`, and `M` the other way. -/
def letterN : UInt8 := 78
def letterM : UInt8 := 77

theorem signalThread_accepted_succ (k : Nat) :
    signalThread (accepted (k + 1)) = Sig.sigint.msg ++ signalThread (accepted k) := rfl

theorem letters_signalThread (k : Nat) : letters (signalThread (accepted k)) = 6 * k + 7 := by
  induction k with
  | zero => decide
  | succ k ih =>
    rw [signalThread_accepted_succ, letters_append, ih, show letters Sig.sigint.msg = 6 by decide]
    omega

theorem zero_notMem_signalThread (k : Nat) : 0 ∉ signalThread (accepted k) := by
  induction k with
  | zero => decide
  | succ k ih =>
    rw [signalThread_accepted_succ, List.mem_append, not_or]
    exact ⟨by decide, ih⟩

theorem letterM_mem_signalThread (k : Nat) : letterM ∈ signalThread (accepted k) := by
  induction k with
  | zero => decide
  | succ k ih =>
    rw [signalThread_accepted_succ, List.mem_append]
    exact Or.inr ih

/-- The number of `N` before the `M` is that of the `SIGINT`s. -/
theorem count_signalThread (k : Nat) :
    ((signalThread (accepted k)).takeWhile (· != letterM)).count letterN = k := by
  induction k with
  | zero => decide
  | succ k ih =>
    rw [signalThread_accepted_succ, List.takeWhile_append_of_pos (List.all_eq_true.1 rfl),
      List.count_append, ih, show Sig.sigint.msg.count letterN = 1 by decide]
    omega

/-- No newline follows another. -/
def Spaced (bytes : List UInt8) : Prop := bytes.IsChain (fun x y => x ≠ newline ∨ y ≠ newline)

theorem spaced_signalThread (k : Nat) : Spaced (signalThread (accepted k)) := by
  have hhead : ∀ k, (signalThread (accepted k)).head? = some 83 := by
    intro k
    cases k <;> rfl
  induction k with
  | zero =>
    unfold Spaced
    decide
  | succ k ih =>
    rw [signalThread_accepted_succ, Spaced, List.isChain_append]
    refine ⟨by decide, ih, ?_⟩
    intro x _ y hy
    rw [hhead, Option.mem_some_iff] at hy
    subst hy
    exact Or.inr (by decide)

/-- Between newlines there are letters. -/
theorem Spaced.length_le :
    ∀ {bytes : List UInt8}, Spaced bytes → bytes.length ≤ 2 * letters bytes + 1
  | [], _ => by simp
  | [x], _ => by simp
  | x :: y :: bytes, h => by
    have htail : Spaced (y :: bytes) := (List.isChain_cons_cons.1 h).2
    by_cases hx : x = newline
    · have hy : y ≠ newline := by
        rcases (List.isChain_cons_cons.1 h).1 with h | h
        · exact absurd hx h
        · exact h
      have htail' : Spaced bytes := htail.tail
      have ih := Spaced.length_le htail'
      rw [letters_cons, letters_cons, if_pos hx, if_neg hy, List.length_cons, List.length_cons]
      omega
    · have ih := Spaced.length_le htail
      rw [letters_cons, if_neg hx, List.length_cons]
      omega

/-! ### One read -/

theorem letters_eq_zero {bytes : List UInt8} :
    letters bytes = 0 ↔ ∀ x ∈ bytes, x = newline := by
  rw [letters, List.countP_eq_zero]
  simp

/-- Around the trimmed bytes there are only newlines. -/
theorem trim_spec (bytes : List UInt8) :
    ∃ a b, bytes = a ++ trim bytes ++ b ∧ letters a = 0 ∧ letters b = 0 := by
  refine ⟨bytes.takeWhile (· == newline),
    (bytes.dropWhile (· == newline)).rtakeWhile (· == newline), ?_, ?_, ?_⟩
  · rw [trim, List.append_assoc, List.rdropWhile_append_rtakeWhile, List.takeWhile_append_dropWhile]
  · rw [letters_eq_zero]
    intro x hx
    simpa using List.mem_takeWhile_imp hx
  · rw [letters_eq_zero]
    intro x hx
    simpa using List.mem_rtakeWhile_imp hx

theorem trim_part (bytes : List UInt8) : trim bytes <:+: bytes := by
  obtain ⟨a, b, h, -, -⟩ := trim_spec bytes
  exact ⟨a, b, h.symm⟩

theorem letters_trim (bytes : List UInt8) : letters (trim bytes) = letters bytes := by
  obtain ⟨a, b, h, ha, hb⟩ := trim_spec bytes
  have hl := congrArg letters h
  rw [letters_append, letters_append, ha, hb] at hl
  omega

/-- A letter stands in the trimmed bytes as often as in all. -/
theorem count_trim {x : UInt8} (hx : x ≠ newline) (bytes : List UInt8) :
    (trim bytes).count x = bytes.count x := by
  have hzero : ∀ l : List UInt8, letters l = 0 → l.count x = 0 := by
    intro l hl
    rw [List.count_eq_zero]
    exact fun hmem => hx (letters_eq_zero.1 hl x hmem)
  obtain ⟨a, b, h, ha, hb⟩ := trim_spec bytes
  have hc := congrArg (List.count x) h
  rw [List.count_append, List.count_append, hzero a ha, hzero b hb] at hc
  omega

theorem mem_trim {x : UInt8} (hx : x ≠ newline) {bytes : List UInt8} :
    x ∈ trim bytes ↔ x ∈ bytes := by
  rw [← List.count_pos_iff, ← List.count_pos_iff, count_trim hx]

theorem trim_eq_nil {bytes : List UInt8} (h : letters bytes = 0) : trim bytes = [] := by
  have hdrop : bytes.dropWhile (· == newline) = [] := by
    rw [List.dropWhile_eq_nil_iff]
    intro x hx
    simpa using letters_eq_zero.1 h x hx
  rw [trim, hdrop]
  rfl

/-- A word with nothing but newlines around it. -/
theorem trim_eq_word {sig : Sig} {bytes : List UInt8} (h : sig.word <:+: bytes)
    (hl : letters bytes = letters sig.word) : trim bytes = sig.word := by
  obtain ⟨a, b, rfl⟩ := h
  rw [letters_append, letters_append] at hl
  have ha : ∀ x ∈ a, (x == newline) = true := by
    intro x hx
    simpa using letters_eq_zero.1 (show letters a = 0 by omega) x hx
  have hb : ∀ x ∈ b.reverse, (x == newline) = true := by
    intro x hx
    simpa using letters_eq_zero.1 (show letters b = 0 by omega) x (List.mem_reverse.1 hx)
  rw [trim, List.append_assoc, List.dropWhile_append_of_pos ha]
  cases sig with
  | sigint =>
    show (Sig.sigint.word ++ b).rdropWhile _ = _
    rw [List.rdropWhile, List.reverse_append, List.dropWhile_append_of_pos hb]
    rfl
  | sigterm =>
    show (Sig.sigterm.word ++ b).rdropWhile _ = _
    rw [List.rdropWhile, List.reverse_append, List.dropWhile_append_of_pos hb]
    rfl

/-- In a read with no word or one, the words are told apart by one letter. -/
theorem OneWord.sigint_iff {bytes : List UInt8} (h : OneWord bytes) :
    Sig.sigint.word <:+: bytes ↔ trim bytes = Sig.sigint.word := by
  constructor
  · intro hw
    have hmem : letterN ∈ trim bytes :=
      (mem_trim (by decide)).2 (hw.subset (by decide))
    rcases h with h | h | h
    · rw [h] at hmem
      cases hmem
    · exact h
    · rw [h] at hmem
      exact absurd hmem (by decide)
  · intro hw
    rw [← hw]
    exact trim_part bytes

theorem OneWord.sigterm_iff {bytes : List UInt8} (h : OneWord bytes) :
    Sig.sigterm.word <:+: bytes ↔ letterM ∈ bytes := by
  constructor
  · exact fun hw => hw.subset (by decide)
  · intro hmem
    rw [← mem_trim (by decide)] at hmem
    rcases h with h | h | h
    · rw [h] at hmem
      cases hmem
    · rw [h] at hmem
      exact absurd hmem (by decide)
    · rw [← h]
      exact trim_part bytes

/-! ### The loop over the reads -/

theorem reads_cons_none {r : Round} (h : r.msg = none) (rounds : List Round) :
    reads (r :: rounds) = reads rounds := by
  rw [reads, List.filterMap_cons_none h]
  rfl

theorem reads_cons_some {r : Round} {bytes : List UInt8} (h : r.msg = some bytes)
    (rounds : List Round) : reads (r :: rounds) = bytes :: reads rounds := by
  rw [reads, List.filterMap_cons_some h]
  rfl

/-- A read fits into `msg`, and the search sees all of it. -/
def Seen (bytes : List UInt8) : Prop := cstr (msgArray bytes) = bytes

theorem Seen.strstr_iff {bytes : List UInt8} (h : Seen bytes) (word : List UInt8) :
    strstr (msgArray bytes) word = true ↔ word <:+: bytes := by
  rw [strstr, decide_eq_true_iff, h]

theorem mem_searched {rounds : List Round} {msg : List UInt8}
    (h : msg ∈ (mainLoop rounds).searched) : ∃ bytes ∈ reads rounds, msg = msgArray bytes := by
  induction rounds with
  | nil => cases h
  | cons r rounds ih =>
    cases hr : r.msg with
    | none =>
      rw [reads_cons_none hr]
      simp only [mainLoop, hr, Loop.after, List.nil_append] at h
      exact ih h
    | some bytes =>
      rw [reads_cons_some hr]
      have hor : msg = msgArray bytes ∨ msg ∈ (mainLoop rounds).searched := by
        simp only [mainLoop, hr] at h
        split at h
        · exact List.mem_cons.1 h
        · split at h
          · exact Or.inl (List.mem_singleton.1 h)
          · exact List.mem_cons.1 h
      rcases hor with hmsg | hmsg
      · exact ⟨bytes, List.mem_cons_self, hmsg⟩
      · obtain ⟨bytes', hb, hmsg⟩ := ih hmsg
        exact ⟨bytes', List.mem_cons_of_mem _ hb, hmsg⟩

/-- The letters of the word that makes `main` print a line. -/
def Output.weight : Output → Nat
  | .userInput _ => 0
  | .sigintReceived => 6
  | .sigtermReceived => 7

def weight : List Output → Nat
  | [] => 0
  | x :: out => x.weight + weight out

theorem weight_append (out out' : List Output) :
    weight (out ++ out') = weight out + weight out' := by
  induction out with
  | nil => exact (Nat.zero_add _).symm
  | cons x out ih => rw [List.cons_append, weight, weight, ih, Nat.add_assoc]

theorem weight_replicate (k : Nat) (x : Output) : weight (List.replicate k x) = k * x.weight := by
  induction k with
  | zero => exact (Nat.zero_mul _).symm
  | succ k ih => rw [List.replicate_succ, weight, ih, Nat.succ_mul, Nat.add_comm]

theorem weight_userOutput (user : Option (List UInt8)) : weight (userOutput user) = 0 := by
  cases user <;> rfl

theorem weight_filter (out : List Output) : weight (out.filter Output.isSignal) = weight out := by
  induction out with
  | nil => rfl
  | cons x out ih =>
    cases x with
    | userInput line =>
      rw [List.filter_cons_of_neg (by simp [Output.isSignal]), ih]
      exact (Nat.zero_add _).symm
    | sigintReceived | sigtermReceived =>
      rw [List.filter_cons_of_pos rfl, weight, weight, ih]

theorem letters_word_le {sig : Sig} {bytes : List UInt8} (h : sig.word <:+: bytes) :
    letters sig.word ≤ letters bytes := by
  obtain ⟨a, b, rfl⟩ := h
  rw [letters_append, letters_append]
  omega

/-- **Every line printed takes the letters of its word out of one read.**  If all letters are
taken, then no read has any besides its word. -/
theorem weight_le {rounds : List Round} (hseen : ∀ bytes ∈ reads rounds, Seen bytes) :
    weight (mainLoop rounds).out ≤ letters (reads rounds).flatten ∧
      (weight (mainLoop rounds).out = letters (reads rounds).flatten →
        ∀ bytes ∈ reads rounds, OneWord bytes) := by
  induction rounds with
  | nil => exact ⟨Nat.zero_le _, fun _ _ h => by cases h⟩
  | cons r rounds ih =>
    cases hr : r.msg with
    | none =>
      rw [reads_cons_none hr] at hseen ⊢
      simp only [mainLoop, hr, Loop.after, weight_append, weight_userOutput, Nat.zero_add]
      exact ih hseen
    | some bytes =>
      rw [reads_cons_some hr] at hseen ⊢
      rw [List.forall_mem_cons] at hseen
      obtain ⟨hbytes, hrest⟩ := hseen
      obtain ⟨hle, heq⟩ := ih hrest
      simp only [mainLoop, hr, List.flatten_cons, letters_append, hbytes.strstr_iff]
      split
      · rename_i hint
        have h6 := letters_word_le hint
        rw [show letters Sig.sigint.word = 6 by decide] at h6
        simp only [Loop.after, weight_append, weight_userOutput]
        rw [show weight [.sigintReceived] = 6 from rfl]
        refine ⟨by omega, fun h => ?_⟩
        rw [List.forall_mem_cons]
        refine ⟨Or.inr (Or.inl (trim_eq_word hint ?_)), heq (by omega)⟩
        rw [show letters Sig.sigint.word = 6 by decide]
        omega
      · split
        · rename_i hterm
          have h7 := letters_word_le hterm
          rw [show letters Sig.sigterm.word = 7 by decide] at h7
          simp only [weight_append, weight_userOutput]
          rw [show weight [.sigtermReceived] = 7 from rfl]
          refine ⟨by omega, fun h => ?_⟩
          rw [List.forall_mem_cons]
          refine ⟨Or.inr (Or.inr (trim_eq_word hterm ?_)), ?_⟩
          · rw [show letters Sig.sigterm.word = 7 by decide]
            omega
          · -- nothing is left for the reads after the loop
            intro bytes' hmem
            have hzero : letters (reads rounds).flatten = 0 := by omega
            rw [letters_eq_zero] at hzero
            have hzero' : letters bytes' = 0 :=
              letters_eq_zero.2 (fun x hx => hzero x (List.mem_flatten.2 ⟨bytes', hmem, hx⟩))
            exact Or.inl (trim_eq_nil hzero')
        · simp only [Loop.after, weight_append, weight_userOutput]
          refine ⟨by omega, fun h => ?_⟩
          rw [List.forall_mem_cons]
          exact ⟨Or.inl (trim_eq_nil (by omega)), heq (by omega)⟩

theorem filter_userOutput (user : Option (List UInt8)) :
    (userOutput user).filter Output.isSignal = [] := by
  cases user <;> rfl

/-- **With no word or one in each read**, `main` prints a line for each `N` before the first
`M`, and leaves at the first `M`. -/
theorem mainLoop_oneWord {rounds : List Round} (hseen : ∀ bytes ∈ reads rounds, Seen bytes)
    (hone : ∀ bytes ∈ reads rounds, OneWord bytes) :
    (mainLoop rounds).out.filter Output.isSignal =
        List.replicate (((reads rounds).flatten.takeWhile (· != letterM)).count letterN)
            .sigintReceived ++
          (if letterM ∈ (reads rounds).flatten then [.sigtermReceived] else []) ∧
      ((mainLoop rounds).left = true ↔ letterM ∈ (reads rounds).flatten) := by
  induction rounds with
  | nil => simp [mainLoop, reads]
  | cons r rounds ih =>
    cases hr : r.msg with
    | none =>
      rw [reads_cons_none hr] at hseen hone ⊢
      simp only [mainLoop, hr, Loop.after, List.filter_append, filter_userOutput, List.nil_append]
      exact ih hseen hone
    | some bytes =>
      rw [reads_cons_some hr] at hseen hone ⊢
      rw [List.forall_mem_cons] at hseen hone
      obtain ⟨hbytes, hseen⟩ := hseen
      obtain ⟨hword, hone⟩ := hone
      obtain ⟨hout, hleft⟩ := ih hseen hone
      simp only [mainLoop, hr, List.flatten_cons, hbytes.strstr_iff, List.mem_append,
        hword.sigterm_iff]
      have hN : bytes.count letterN = (trim bytes).count letterN := (count_trim (by decide) _).symm
      -- a read without `M` is passed over whole
      have hpass : letterM ∉ bytes →
          ((bytes ++ (reads rounds).flatten).takeWhile (· != letterM)).count letterN =
            (trim bytes).count letterN +
              ((reads rounds).flatten.takeWhile (· != letterM)).count letterN := by
        intro hM
        rw [List.takeWhile_append_of_pos, List.count_append, hN]
        intro x hx
        rw [bne_iff_ne]
        rintro rfl
        exact hM hx
      split
      · rename_i hint
        have htrim := hword.sigint_iff.1 hint
        have hM : letterM ∉ bytes := by
          rw [← mem_trim (by decide), htrim]
          decide
        rw [hpass hM, htrim, show Sig.sigint.word.count letterN = 1 by decide, Nat.add_comm]
        simp only [Loop.after, List.filter_append, filter_userOutput, List.nil_append, hM, false_or]
        refine ⟨?_, hleft⟩
        rw [hout, List.replicate_succ]
        rfl
      · rename_i hint
        split
        · rename_i hM
          have hpre : (bytes ++ (reads rounds).flatten).takeWhile (· != letterM) =
              bytes.takeWhile (· != letterM) := by
            rw [List.takeWhile_append, if_neg]
            intro hlen
            have hself := (List.takeWhile_prefix (· != letterM)).eq_of_length hlen
            rw [List.takeWhile_eq_self_iff] at hself
            exact absurd (hself _ hM) (by decide)
          have hzero : (bytes.takeWhile (· != letterM)).count letterN = 0 := by
            rw [List.count_eq_zero]
            intro hmem
            have hmem' : letterN ∈ trim bytes :=
              (mem_trim (by decide)).2 ((List.takeWhile_prefix _).subset hmem)
            have hkind := hword
            rcases hkind with h | h | h
            · rw [h] at hmem'
              cases hmem'
            · exact hint (hword.sigint_iff.2 h)
            · rw [h] at hmem'
              exact absurd hmem' (by decide)
          rw [hpre, hzero]
          simp only [List.filter_append, filter_userOutput, hM, true_or, if_true]
          exact ⟨rfl, trivial⟩
        · rename_i hM
          have htrim : trim bytes = [] := by
            have hkind := hword
            rcases hkind with h | h | h
            · exact h
            · exact absurd (hword.sigint_iff.2 h) hint
            · exact absurd (hword.sigterm_iff.1 (by rw [← h]; exact trim_part bytes)) hM
          rw [hpass hM, htrim, List.count_nil, Nat.zero_add]
          simp only [Loop.after, List.filter_append, filter_userOutput, List.nil_append, hM,
            false_or]
          exact ⟨hout, hleft⟩

/-! ### The main result -/

/-- A read of the stream with no word or one does not fill `msg`. -/
theorem OneWord.length_lt {bytes : List UInt8} (h : OneWord bytes) (hs : Spaced bytes) :
    bytes.length < msgSize := by
  have hle := hs.length_le
  have h7 : letters bytes ≤ 7 := by
    rw [← letters_trim]
    rcases h with h | h | h <;> rw [h] <;> decide
  show bytes.length < 64
  omega

/-- `SIGTERM` has been read when its `M` has been read. -/
theorem sigterm_infix_iff {cs : List (List UInt8)} (hone : ∀ bytes ∈ cs, OneWord bytes) :
    Sig.sigterm.word <:+: cs.flatten ↔ letterM ∈ cs.flatten := by
  constructor
  · exact fun hw => hw.subset (by decide)
  · intro hmem
    obtain ⟨bytes, hb, hM⟩ := List.mem_flatten.1 hmem
    have hw := (hone bytes hb).sigterm_iff.2 hM
    exact hw.trans (List.infix_of_mem_flatten hb)

/-- **No signal is lost exactly when each read holds no word or one, whole.**  For `k` times
`SIGINT` and a `SIGTERM`, and the bytes in the pipe cut into reads that fit into `msg`. -/
theorem signals_received_iff (k : Nat) (rounds : List Round)
    (hcut : (reads rounds).flatten = signalThread (accepted k))
    (hlen : ∀ bytes ∈ reads rounds, bytes.length ≤ msgSize) :
    Received k rounds ↔ ∀ bytes ∈ reads rounds, OneWord bytes := by
  have hpart : ∀ bytes ∈ reads rounds, bytes <:+: signalThread (accepted k) := by
    intro bytes hb
    rw [← hcut]
    exact List.infix_of_mem_flatten hb
  have hseen : ∀ bytes ∈ reads rounds, Seen bytes := by
    intro bytes hb
    refine cstr_msgArray (hlen bytes hb) (fun h0 => ?_)
    exact zero_notMem_signalThread k ((hpart bytes hb).subset h0)
  constructor
  · rintro ⟨hout, -, -⟩
    apply (weight_le hseen).2
    rw [← weight_filter, hout, hcut, letters_signalThread, weight_append, weight_replicate]
    show k * 6 + 7 = 6 * k + 7
    omega
  · intro hone
    refine ⟨?_, ?_, ?_⟩
    · rw [(mainLoop_oneWord hseen hone).1, hcut, count_signalThread,
        if_pos (letterM_mem_signalThread k)]
    · intro n
      have hsub : ∀ bytes ∈ reads (rounds.take n), bytes ∈ reads rounds :=
        fun bytes hb => ((List.take_sublist n rounds).filterMap _).subset hb
      have hone' := fun bytes hb => hone bytes (hsub bytes hb)
      rw [(mainLoop_oneWord (fun bytes hb => hseen bytes (hsub bytes hb)) hone').2,
        sigterm_infix_iff hone']
    · intro msg hmsg
      obtain ⟨bytes, hb, rfl⟩ := mem_searched hmsg
      have hspaced : Spaced bytes := List.IsChain.infix (spaced_signalThread k) (hpart bytes hb)
      exact zero_mem_msgArray ((hone bytes hb).length_lt hspaced)

/-- A `SIGINT`, cut before its newline, a line typed meanwhile, and a `SIGTERM`. -/
def oneByOne : List Round :=
  [{ user := none, msg := some Sig.sigint.word },
    { user := some (text "abc\n"), msg := none },
    { user := none, msg := some (newline :: Sig.sigterm.msg) }]

theorem signals_received_one_by_one : Received 1 oneByOne := by
  refine (signals_received_iff 1 oneByOne rfl (by decide)).2 ?_
  intro bytes hb
  rcases List.mem_pair.1 hb with rfl | rfl
  · exact Or.inr (Or.inl rfl)
  · exact Or.inr (Or.inr rfl)

/-- The two messages in one read. -/
def joined : List Round := [{ user := none, msg := some (Sig.sigint.msg ++ Sig.sigterm.msg) }]

/-- The read is taken for a `SIGINT`, all is read, and the loop goes on. -/
theorem sigterm_lost :
    (reads joined).flatten = signalThread (accepted 1) ∧
      (∀ bytes ∈ reads joined, bytes.length ≤ msgSize) ∧
      (mainLoop joined).out = [.sigintReceived] ∧ (mainLoop joined).left = false ∧
      ¬ Received 1 joined := by
  have hout : (mainLoop joined).out = [.sigintReceived] := by decide
  refine ⟨rfl, by decide, hout, by decide, ?_⟩
  rintro ⟨h, -, -⟩
  rw [hout] at h
  cases h

end EmbeddedLinux.SignalInput
