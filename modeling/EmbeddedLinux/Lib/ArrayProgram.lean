import EmbeddedLinux.Lib.Buffer

/-!
# Programs over one array

A program loads and stores the elements of one array, at integer indices.  An index outside of the
array makes it fail, and so does a value that is no `int`.  The state remembers which indices have
been used.

`Runs n p b x b'` says that the program `p` on the array `b` returns `x` and leaves `b'`, and that
it has used no index outside of the first `n`.  There is a rule for each way to build a
program; the one for `while` has an invariant and a variant (`Runs.whileDo`), so with it a loop is
shown to end.
-/

namespace ArrayProgram

variable {α β γ σ : Type}

/-- An array, and the indices at which it has been read or written. -/
structure Mem (α : Type) where
  data : List α
  used : List Int

abbrev Prog (α : Type) := StateT (Mem α) Option

def load (i : Int) : Prog α α := fun m =>
  (Buffer.load m.data i).map (fun x => (x, { m with used := i :: m.used }))

def store (i : Int) (x : α) : Prog α Unit := fun m =>
  (Buffer.store m.data i x).map (fun b => ((), { data := b, used := i :: m.used }))

/-- The value of an expression of type `int`; an overflow is undefined. -/
def int (v : Int) : Prog α Int := fun m =>
  if -2147483648 ≤ v ∧ v ≤ 2147483647 then some (v, m) else none

/-- At most `k - 1` rounds of a loop over the local variables `s`. -/
def rounds (cond : σ → Prog α Bool) (body : σ → Prog α σ) : Nat → σ → Prog α σ
  | 0, _ => fun _ => none
  | k + 1, s => do
    let c ← cond s
    if c then
      let t ← body s
      rounds cond body k t
    else
      return s

/-- `while (cond) body`, for a loop that takes at most one round for each element. -/
def whileDo (cond : σ → Prog α Bool) (body : σ → Prog α σ) (s : σ) : Prog α σ := fun m =>
  rounds cond body (m.data.length + 1) s m

def Runs (n : Nat) (p : Prog α β) (b : List α) (x : β) (b' : List α) : Prop :=
  ∀ used, ∃ new, p { data := b, used := used } = some (x, { data := b', used := new ++ used }) ∧
    ∀ i ∈ new, 0 ≤ i ∧ i < n

variable {n : Nat} {p : Prog α β} {f : β → Prog α γ} {b b' b'' : List α} {x : β} {y : γ}

/-! ### The rules -/

theorem Runs.pure (n : Nat) (x : β) (b : List α) : Runs n (Pure.pure x) b x b :=
  fun _ => ⟨[], rfl, by simp⟩

theorem Runs.bind (hp : Runs n p b x b') (hf : Runs n (f x) b' y b'') :
    Runs n (p >>= f) b y b'' := by
  intro used
  obtain ⟨new, hrun, hnew⟩ := hp used
  obtain ⟨new', hrun', hnew'⟩ := hf (new ++ used)
  refine ⟨new' ++ new, ?_, ?_⟩
  · show (p _).bind _ = _
    rw [hrun, List.append_assoc, ← hrun']
    rfl
  · intro i hi
    rcases List.mem_append.1 hi with hi | hi
    · exact hnew' i hi
    · exact hnew i hi

theorem Runs.load {i : Nat} {x : α} (h : b[i]? = some x) (hi : i < n) :
    Runs n (load (i : Int)) b x b := by
  intro used
  refine ⟨[(i : Int)], ?_, by simp [hi]⟩
  unfold ArrayProgram.load Buffer.load
  rw [if_pos (by omega), Int.toNat_natCast, h]
  rfl

theorem Runs.store {a r : List α} {x : α} (y : α) (ha : a.length < n) :
    Runs n (store (a.length : Int) y) (a ++ x :: r) () (a ++ y :: r) := by
  intro used
  refine ⟨[(a.length : Int)], ?_, by simp [ha]⟩
  rw [ArrayProgram.store, Buffer.store_append]
  rfl

theorem Runs.int {v : Int} (n : Nat) (b : List α) (h1 : -2147483648 ≤ v) (h2 : v ≤ 2147483647) :
    Runs n (int v) b v b :=
  fun _ => ⟨[], if_pos ⟨h1, h2⟩, by simp⟩

section
variable {cond : σ → Prog α Bool} {body : σ → Prog α σ} {I Q : σ → List α → Prop}

/-- What one round does under the invariant `I`: it leaves the loop with `Q`, or keeps `I` and makes
the variant smaller. -/
def Round (n : Nat) (cond : σ → Prog α Bool) (body : σ → Prog α σ) (I Q : σ → List α → Prop)
    (variant : σ → Nat) : Prop :=
  ∀ s b, I s b → ∃ c, Runs n (cond s) b c b ∧ (c = false → Q s b) ∧
    (c = true → ∃ t b', Runs n (body s) b t b' ∧ I t b' ∧ variant t < variant s)

theorem Round.rounds {variant : σ → Nat} (h : Round n cond body I Q variant) {k : Nat} {s : σ}
    (hI : I s b) (hk : variant s < k) :
    ∃ t b', Runs n (rounds cond body k s) b t b' ∧ Q t b' := by
  induction k generalizing s b with
  | zero => omega
  | succ k ih =>
    obtain ⟨c, hc, hleave, hstay⟩ := h s b hI
    cases c with
    | false => exact ⟨s, b, hc.bind (.pure n s b), hleave rfl⟩
    | true =>
      obtain ⟨t, b', hbody, hI', hlt⟩ := hstay rfl
      obtain ⟨u, b'', hrest, hQ⟩ := ih hI' (by omega)
      exact ⟨u, b'', hc.bind (hbody.bind hrest), hQ⟩

/-- **A loop with an invariant and a variant ends.** -/
theorem Round.whileDo {variant : σ → Nat} (h : Round n cond body I Q variant) {s : σ} (hI : I s b)
    (hlen : variant s ≤ b.length) : ∃ t b', Runs n (whileDo cond body s) b t b' ∧ Q t b' := by
  obtain ⟨t, b', hrun, hQ⟩ := h.rounds hI (Nat.lt_succ_of_le hlen)
  exact ⟨t, b', fun used => hrun used, hQ⟩

end

end ArrayProgram
