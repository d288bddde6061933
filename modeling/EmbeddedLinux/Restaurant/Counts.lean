import EmbeddedLinux.Restaurant.Tray

/-!
# The counts of a tray

The slots and the three semaphores of a tray are changed in separate steps, so in most
states they disagree.  What makes up the difference is where the processes are: a
process that has passed its first `sem_wait` holds a unit of the semaphore it took
from, until its last `sem_post`, and the slot it is there for is changed half way,
at the store.  `Sound` has the equations.

From them: a loop finds a slot (`Sound.finds`), so the routines never fall through it;
at most one process is between `sem_wait(mutex)` and `sem_post(mutex)`; and a tray with
both an adder and a remover inside is never stuck (`Sound.progress`).
-/

namespace EmbeddedLinux.Restaurant

open Tally

/-- Between `sem_wait(mutex)` and `sem_post(mutex)`. -/
def Pos.inMutex : Pos → Bool
  | .test _ | .write _ | .unlock => true
  | _ => false

/-- Past the first `sem_wait`, and the slot is not changed yet. -/
def Pos.before : Pos → Bool
  | .lock | .test _ | .write _ => true
  | _ => false

/-- The slot is changed, and the last `sem_post` is still to come. -/
def Pos.after : Pos → Bool
  | .unlock | .last => true
  | _ => false

namespace Tray

variable {ι : Type*} [Fintype ι] (adds : ι → Bool) (w : Tray ι)

/-- The number of processes inside a call whose position satisfies `f`. -/
def count (f : ι → Pos → Bool) : Nat := tally (fun i o => o.any (f i)) w.pos

def inMutex : Nat := w.count (fun _ p => p.inMutex)

/-- The processes inside `add_item` that are still to store their item. -/
def adding : Nat := w.count (fun i p => adds i && p.before)

/-- The processes inside `add_item` that have stored it. -/
def added : Nat := w.count (fun i p => adds i && p.after)

/-- The processes inside `remove_item` that are still to clear a slot. -/
def removing : Nat := w.count (fun i p => !adds i && p.before)

/-- The processes inside `remove_item` that have cleared it. -/
def removed : Nat := w.count (fun i p => !adds i && p.after)

/-- The processes that hold a unit of `empty` or of `full`. -/
def permits : Nat := w.count (fun _ p => p.before || p.after)

theorem permits_eq :
    w.permits = (w.adding adds + w.added adds) + (w.removing adds + w.removed adds) := by
  have hsum : ∀ i, ((w.pos i).any (fun p => p.before || p.after)).toNat =
      (((w.pos i).any (fun p => adds i && p.before)).toNat +
        ((w.pos i).any (fun p => adds i && p.after)).toNat) +
      (((w.pos i).any (fun p => !adds i && p.before)).toNat +
        ((w.pos i).any (fun p => !adds i && p.after)).toNat) := by
    intro i
    cases adds i <;> cases w.pos i with
    | none => rfl
    | some p => cases p <;> rfl
  rw [permits, adding, added, removing, removed, count, count, count, count, count, tally, tally,
    tally, tally, tally, ← Finset.sum_add_distrib, ← Finset.sum_add_distrib,
    ← Finset.sum_add_distrib]
  exact Finset.sum_congr rfl (fun i _ => hsum i)

variable {w} {f : ι → Pos → Bool} {i : ι} {p : Pos}

theorem count_pos (hp : w.pos i = some p) (hf : f i p = true) : 0 < w.count f := by
  refine tally_pos_of (i := i) ?_
  rw [hp]
  exact hf

/-- Nobody counts when nobody has passed a `sem_wait`. -/
theorem count_eq_zero (hf : ∀ i, f i .first = false)
    (h : ∀ i, w.pos i = none ∨ w.pos i = some .first) : w.count f = 0 := by
  rw [count, tally_eq_zero]
  intro i
  rcases h i with h | h <;> rw [h]
  · rfl
  · exact hf i

/-- **The counts after a step of process `i` from `p` to `q`.** -/
theorem count_move [DecidableEq ι] (hp : w.pos i = some p) (f : ι → Pos → Bool) (b : SharedBuffer)
    (q : Option Pos) :
    (w.move adds i p b q).count f + (f i p).toNat = w.count f + (q.any (f i)).toNat := by
  have h := tally_update (fun i o => o.any (f i)) w.pos i q
  rw [hp] at h
  exact h

theorem count_enter [DecidableEq ι] (hp : w.pos i = none) (hf : f i .first = false) :
    (w.enter i).count f = w.count f := by
  have h := tally_update (fun i o => o.any (f i)) w.pos i (some .first)
  simp only [hp, Option.any_none, Option.any_some, hf] at h
  exact h

end Tray

/-- **The invariant of a tray** whose items have the type `t`. -/
structure Sound {ι : Type*} [Fintype ι] (adds : ι → Bool) (t : Int) (w : Tray ι) : Prop where
  mutex : w.buf.sem .mutex + w.inMutex = 1
  full : w.buf.filled = w.buf.sem .full + w.removing adds + w.added adds
  room : w.buf.filled + w.buf.sem .empty + w.adding adds + w.removed adds = bufferSize
  slots : ∀ j, w.buf.items j = Item.empty ∨ w.buf.items j = t
  searched : ∀ i k, w.pos i = some (.test k) →
    ∀ j : Fin bufferSize, j.val < k → w.buf.items j ≠ (routine adds t i).find
  found : ∀ i j, w.pos i = some (.write j) → w.buf.items j = (routine adds t i).find ∧
    ∀ l < j, w.buf.items l ≠ (routine adds t i).find
  history : w.buf.filled + w.clears = w.stores

namespace SharedBuffer

/-- A slot is free unless all are filled. -/
theorem exists_free {b : SharedBuffer} (h : b.filled < bufferSize) :
    ∃ j, b.items j = Item.empty := by
  have hadd := tally_add_not (fun _ x => x != Item.empty) b.items
  rw [Fintype.card_fin] at hadd
  rw [filled] at h
  have hpos : 0 < tally (fun _ x => !(x != Item.empty)) b.items := by omega
  obtain ⟨j, hj⟩ := tally_pos.mp hpos
  exact ⟨j, by simpa using hj⟩

theorem exists_filled {b : SharedBuffer} (h : 0 < b.filled) : ∃ j, b.items j ≠ Item.empty := by
  obtain ⟨j, hj⟩ := tally_pos.mp h
  exact ⟨j, by simpa using hj⟩

/-- What a store does to the number of filled slots. -/
theorem filled_store (b : SharedBuffer) (j : Fin bufferSize) (x : Int) :
    (b.store j x).filled + (b.items j != Item.empty).toNat =
      b.filled + (x != Item.empty).toNat :=
  tally_update (fun _ x => x != Item.empty) b.items j x

end SharedBuffer

theorem routine_add {ι : Type*} {adds : ι → Bool} {i : ι} (t : Int) (h : adds i = true) :
    routine adds t i = addItem t := by
  rw [routine, if_pos h]

theorem routine_remove {ι : Type*} {adds : ι → Bool} {i : ι} (t : Int) (h : adds i = false) :
    routine adds t i = removeItem t := by
  rw [routine, h]
  rfl

namespace Sound

variable {ι : Type*} [Fintype ι] {adds : ι → Bool} {t : Int} {w : Tray ι} {i : ι}

theorem init (t : Int) {w : Tray ι} (hb : w.buf = SharedBuffer.init)
    (hpos : ∀ i, w.pos i = none ∨ w.pos i = some .first) (hst : w.stores = 0) (hcl : w.clears = 0) :
    Sound adds t w := by
  have hfilled : w.buf.filled = 0 := by
    rw [hb, SharedBuffer.filled, tally_eq_zero]
    intro i
    rfl
  have hno : ∀ i p, w.pos i = some p → p = .first := by
    intro i p hp
    rcases hpos i with h | h <;> rw [h] at hp
    · cases hp
    · cases hp
      rfl
  refine ⟨?_, ?_, ?_, ?_, ?_, ?_, ?_⟩
  · rw [Tray.inMutex, Tray.count_eq_zero (fun _ => rfl) hpos, hb]
    rfl
  · rw [hfilled, Tray.removing, Tray.added, Tray.count_eq_zero (fun _ => Bool.and_false _) hpos,
      Tray.count_eq_zero (fun _ => Bool.and_false _) hpos, hb]
    rfl
  · rw [hfilled, Tray.adding, Tray.removed, Tray.count_eq_zero (fun _ => Bool.and_false _) hpos,
      Tray.count_eq_zero (fun _ => Bool.and_false _) hpos, hb]
    rfl
  · intro j
    rw [hb]
    exact Or.inl rfl
  · intro i k hp
    cases hno i _ hp
  · intro i j hp
    cases hno i _ hp
  · rw [hfilled, hst, hcl]

/-- **At most one process is between `sem_wait(mutex)` and `sem_post(mutex)`.** -/
theorem exclusive [DecidableEq ι] (h : Sound adds t w) {j : ι} {p q : Pos} (hi : w.pos i = some p)
    (hj : w.pos j = some q) (hp : p.inMutex = true) (hq : q.inMutex = true) : i = j := by
  have hle : w.inMutex ≤ 1 := by
    have := h.mutex
    omega
  refine eq_of_tally_le_one hle ?_ ?_
  · rw [hi]
    exact hp
  · rw [hj]
    exact hq

/-- **A loop that runs finds a slot**: one that was not tested yet holds the value it
looks for. -/
theorem finds (h : Sound adds t w) {k : Nat} (hp : w.pos i = some (.test k)) :
    ∃ j : Fin bufferSize, k ≤ j.val ∧ w.buf.items j = (routine adds t i).find := by
  have hany : ∃ j, w.buf.items j = (routine adds t i).find := by
    cases ha : adds i with
    | true =>
      -- an adder has taken a unit of `empty`, so not all slots are filled
      rw [routine_add t ha]
      have hpos : 0 < w.adding adds := Tray.count_pos hp (by rw [ha]; rfl)
      have hroom := h.room
      exact SharedBuffer.exists_free (by omega)
    | false =>
      rw [routine_remove t ha]
      have hpos : 0 < w.removing adds := Tray.count_pos hp (by rw [ha]; rfl)
      have hfull := h.full
      obtain ⟨j, hj⟩ := SharedBuffer.exists_filled (b := w.buf) (by omega)
      exact ⟨j, (h.slots j).resolve_left hj⟩
  obtain ⟨j, hj⟩ := hany
  refine ⟨j, ?_, hj⟩
  by_contra hlt
  exact h.searched i k hp j (not_le.mp hlt) hj

/-! ### Steps -/

variable [DecidableEq ι]

theorem enter (h : Sound adds t w) (hp : w.pos i = none) : Sound adds t (w.enter i) := by
  have hcount : ∀ f : ι → Pos → Bool, f i .first = false → (w.enter i).count f = w.count f :=
    fun f hf => Tray.count_enter hp hf
  have hold : ∀ j p, (w.enter i).pos j = some p → p ≠ .first → w.pos j = some p := by
    intro j p hj hne
    rw [Tray.enter_pos] at hj
    split at hj
    · exact absurd (Option.some.inj hj).symm hne
    · exact hj
  refine ⟨?_, ?_, ?_, h.slots, ?_, ?_, h.history⟩
  · rw [Tray.inMutex, hcount _ rfl]
    exact h.mutex
  · rw [Tray.removing, Tray.added, hcount _ (Bool.and_false _), hcount _ (Bool.and_false _)]
    exact h.full
  · rw [Tray.adding, Tray.removed, hcount _ (Bool.and_false _), hcount _ (Bool.and_false _)]
    exact h.room
  · intro j k hj
    exact h.searched j k (hold j _ hj (by simp))
  · intro j l hj
    exact h.found j l (hold j _ hj (by simp))

/-- A step that stores nothing: what the process takes from a semaphore or gives to it
is what its new position stands for. -/
theorem move_sem (h : Sound adds t w) {p : Pos} {b : SharedBuffer} {q : Option Pos}
    (hp : w.pos i = some p) (hw : p.isWrite = false) (hitems : b.items = w.buf.items)
    (hmutex : b.sem .mutex + (q.any (fun p => p.inMutex)).toNat =
      w.buf.sem .mutex + p.inMutex.toNat)
    (hfull : b.sem .full + (q.any (fun p => !adds i && p.before)).toNat +
        (q.any (fun p => adds i && p.after)).toNat =
      w.buf.sem .full + (!adds i && p.before).toNat + (adds i && p.after).toNat)
    (hempty : b.sem .empty + (q.any (fun p => adds i && p.before)).toNat +
        (q.any (fun p => !adds i && p.after)).toNat =
      w.buf.sem .empty + (adds i && p.before).toNat + (!adds i && p.after).toNat)
    (htest : ∀ k, q = some (.test k) →
      ∀ j : Fin bufferSize, j.val < k → w.buf.items j ≠ (routine adds t i).find)
    (hwrite : ∀ j, q = some (.write j) → w.buf.items j = (routine adds t i).find ∧
      ∀ l < j, w.buf.items l ≠ (routine adds t i).find) :
    Sound adds t (w.move adds i p b q) := by
  have hcount := fun f => Tray.count_move adds hp f b q
  have hfilled : (w.move adds i p b q).buf.filled = w.buf.filled := by
    show b.filled = _
    rw [SharedBuffer.filled, hitems]
    rfl
  refine ⟨?_, ?_, ?_, ?_, ?_, ?_, ?_⟩
  · have h1 := hcount (fun _ p => p.inMutex)
    have h2 := h.mutex
    show b.sem .mutex + (w.move adds i p b q).count _ = 1
    rw [Tray.inMutex] at h2
    omega
  · have h1 := hcount (fun i p => !adds i && p.before)
    have h2 := hcount (fun i p => adds i && p.after)
    have h3 := h.full
    rw [hfilled]
    show w.buf.filled = b.sem .full + (w.move adds i p b q).count _ + (w.move adds i p b q).count _
    rw [Tray.removing, Tray.added] at h3
    omega
  · have h1 := hcount (fun i p => adds i && p.before)
    have h2 := hcount (fun i p => !adds i && p.after)
    have h3 := h.room
    rw [hfilled]
    show w.buf.filled + b.sem .empty + (w.move adds i p b q).count _ +
      (w.move adds i p b q).count _ = _
    rw [Tray.adding, Tray.removed] at h3
    omega
  · intro j
    show b.items j = _ ∨ b.items j = _
    rw [hitems]
    exact h.slots j
  · intro j k hj
    show ∀ l : Fin bufferSize, l.val < k → b.items l ≠ _
    rw [hitems]
    rw [Tray.move_pos] at hj
    split at hj
    · rename_i hji
      subst hji
      exact htest k hj
    · exact h.searched j k hj
  · intro j k hj
    show b.items k = _ ∧ ∀ l < k, b.items l ≠ _
    rw [hitems]
    rw [Tray.move_pos] at hj
    split at hj
    · rename_i hji
      subst hji
      exact hwrite k hj
    · exact h.found j k hj
  · rw [hfilled]
    show w.buf.filled + (w.clears + (p.isWrite && !adds i).toNat) =
      w.stores + (p.isWrite && adds i).toNat
    rw [hw]
    exact h.history

/-- **The store**: the slot changes, and with it the side of the equations the process
is on.  Nobody else is in a loop, so nobody else's search is disturbed. -/
theorem move_write (h : Sound adds t w) (ht : t ≠ Item.empty) {k : Fin bufferSize}
    (hp : w.pos i = some (.write k)) :
    Sound adds t (w.move adds i (.write k) (w.buf.store k (routine adds t i).put)
      (some .unlock)) := by
  obtain ⟨hfind, -⟩ := h.found i k hp
  have hcount := fun f =>
    Tray.count_move adds hp f (w.buf.store k (routine adds t i).put) (some .unlock)
  have hstore := w.buf.filled_store k (routine adds t i).put
  have hne : (t != Item.empty) = true := by simpa using ht
  -- one more filled slot for an adder, one less for a remover
  have hfilled : (w.buf.store k (routine adds t i).put).filled + (!adds i).toNat =
      w.buf.filled + (adds i).toNat := by
    rw [hfind] at hstore
    cases ha : adds i with
    | true =>
      rw [routine_add t ha] at hstore ⊢
      simpa [addItem, hne] using hstore
    | false =>
      rw [routine_remove t ha] at hstore ⊢
      simpa [removeItem, hne] using hstore
  have hother : ∀ j p, (w.move adds i (.write k) (w.buf.store k (routine adds t i).put)
      (some .unlock)).pos j = some p → p.inMutex = true → p = .unlock := by
    intro j p hj hm
    rw [Tray.move_pos] at hj
    split at hj
    · exact (Option.some.inj hj).symm
    · rename_i hji
      exact absurd (h.exclusive hj hp hm rfl) hji
  set w' := w.move adds i (.write k) (w.buf.store k (routine adds t i).put) (some .unlock)
  refine ⟨?_, ?_, ?_, ?_, ?_, ?_, ?_⟩
  · have h1 : w'.inMutex + 1 = w.inMutex + 1 := hcount (fun _ p => p.inMutex)
    have h2 := h.mutex
    show w.buf.sem .mutex + w'.inMutex = 1
    omega
  · have h1 : w'.removing adds + (!adds i && true).toNat =
        w.removing adds + (!adds i && false).toNat := hcount (fun i p => !adds i && p.before)
    have h2 : w'.added adds + (adds i && false).toNat = w.added adds + (adds i && true).toNat :=
      hcount (fun i p => adds i && p.after)
    have h3 := h.full
    show (w.buf.store k _).filled = w.buf.sem .full + w'.removing adds + w'.added adds
    simp only [Bool.and_true, Bool.and_false, Bool.toNat_false] at h1 h2
    omega
  · have h1 : w'.adding adds + (adds i && true).toNat = w.adding adds + (adds i && false).toNat :=
      hcount (fun i p => adds i && p.before)
    have h2 : w'.removed adds + (!adds i && false).toNat =
        w.removed adds + (!adds i && true).toNat := hcount (fun i p => !adds i && p.after)
    have h3 := h.room
    show (w.buf.store k _).filled + w.buf.sem .empty + w'.adding adds + w'.removed adds = _
    simp only [Bool.and_true, Bool.and_false, Bool.toNat_false] at h1 h2
    omega
  · intro j
    show Function.update w.buf.items k _ j = _ ∨ Function.update w.buf.items k _ j = _
    rw [Function.update_apply]
    split
    · cases ha : adds i with
      | true =>
        rw [routine_add t ha]
        exact Or.inr rfl
      | false =>
        rw [routine_remove t ha]
        exact Or.inl rfl
    · exact h.slots j
  · intro j l hj
    cases hother j _ hj rfl
  · intro j l hj
    cases hother j _ hj rfl
  · have h1 := h.history
    show (w.buf.store k _).filled + (w.clears + (true && !adds i).toNat) =
      w.stores + (true && adds i).toNat
    simp only [Bool.true_and]
    omega

/-- **Every step keeps the invariant.** -/
theorem step (h : Sound adds t w) (ht : t ≠ Item.empty) {w' : Tray ι}
    (hs : TrayStep adds t w w') : Sound adds t w' := by
  cases hs with
  | enter hp => exact h.enter hp
  | @move i p b q hp hs =>
    obtain ⟨rfl, rfl, hpos, rfl⟩ | ⟨rfl, rfl, hpos, rfl⟩ | ⟨k, rfl, rfl, hk⟩ | ⟨k, rfl, hk, -, -⟩ |
      ⟨k, rfl, rfl, rfl⟩ | ⟨rfl, rfl, rfl⟩ | ⟨rfl, rfl, rfl⟩ := Routine.step_cases hs
    · -- `sem_wait` on `empty` or `full`
      refine h.move_sem hp rfl rfl ?_ ?_ ?_ (by simp) (by simp) <;>
        cases ha : adds i <;> simp [routine, ha, addItem, removeItem, Pos.inMutex, Pos.before,
          Pos.after] at hpos ⊢ <;> omega
    · refine h.move_sem hp rfl rfl ?_ ?_ ?_ ?_ (by simp)
      · simp [Pos.inMutex]
        omega
      · simp [Pos.before, Pos.after]
      · simp [Pos.before, Pos.after]
      · intro k hk j hj
        cases hk
        cases hj
    · rcases hk with ⟨hf, rfl⟩ | ⟨hf, rfl⟩
      · refine h.move_sem hp rfl rfl rfl rfl rfl (by simp) ?_
        intro j hj
        cases hj
        exact ⟨hf, fun l hl => h.searched i k hp l hl⟩
      · refine h.move_sem hp rfl rfl rfl rfl rfl ?_ (by simp)
        intro m hm j hj
        cases hm
        by_cases hjk : j = k
        · rw [hjk]
          exact hf
        · have hv : j.val ≠ k.val := fun e => hjk (Fin.ext e)
          exact h.searched i k hp j (by omega)
    · -- the loop does not end without a slot
      obtain ⟨j, hj, -⟩ := h.finds hp
      have := j.isLt
      omega
    · exact h.move_write ht hp
    · refine h.move_sem hp rfl rfl ?_ ?_ ?_ (by simp) (by simp)
      · simp [SharedBuffer.semPost, Pos.inMutex]
      · simp [SharedBuffer.semPost, Pos.before, Pos.after]
      · simp [SharedBuffer.semPost, Pos.before, Pos.after]
    · refine h.move_sem hp rfl rfl ?_ ?_ ?_ (by simp) (by simp) <;>
        cases ha : adds i <;> simp [routine, ha, addItem, removeItem, SharedBuffer.semPost,
          Pos.inMutex, Pos.before, Pos.after]

/-! ### Progress -/

omit [DecidableEq ι] in
/-- **A tray is not stuck** while an adder and a remover are inside: some process that
is inside can take a step. -/
theorem progress (h : Sound adds t w) {j : ι} {p q : Pos} (hi : adds i = true)
    (hj : adds j = false) (hp : w.pos i = some p) (hq : w.pos j = some q) :
    ∃ k r, w.pos k = some r ∧ (routine adds t k).step w.buf r ≠ none := by
  by_contra hno
  push Not at hno
  have hblocked : ∀ k r, w.pos k = some r →
      r = .first ∧ w.buf.sem (routine adds t k).first = 0 ∨ r = .lock ∧ w.buf.sem .mutex = 0 :=
    fun k r hr => Routine.step_eq_none (hno k r hr)
  have hfree : ∀ f : ι → Pos → Bool, (∀ k r, w.pos k = some r → f k r = false) →
      w.count f = 0 := by
    intro f hf
    rw [Tray.count, tally_eq_zero]
    intro k
    cases hr : w.pos k with
    | none => rfl
    | some r => exact hf k r hr
  -- nobody is behind the mutex, so it is free, and nobody waits for it
  have hmutex : w.buf.sem .mutex = 1 := by
    have hin : w.inMutex = 0 := by
      apply hfree
      intro k r hr
      rcases hblocked k r hr with ⟨rfl, -⟩ | ⟨rfl, -⟩ <;> rfl
    have := h.mutex
    omega
  have hfirst : ∀ k r, w.pos k = some r → r = .first ∧ w.buf.sem (routine adds t k).first = 0 := by
    intro k r hr
    rcases hblocked k r hr with hb | ⟨-, hb⟩
    · exact hb
    · omega
  have hcount : ∀ f : ι → Pos → Bool, (∀ k, f k .first = false) → w.count f = 0 := by
    intro f hf
    apply hfree
    intro k r hr
    rw [(hfirst k r hr).1]
    exact hf k
  have h1 : w.removing adds = 0 := hcount _ (fun _ => Bool.and_false _)
  have h2 : w.added adds = 0 := hcount _ (fun _ => Bool.and_false _)
  have h3 : w.adding adds = 0 := hcount _ (fun _ => Bool.and_false _)
  have h4 : w.removed adds = 0 := hcount _ (fun _ => Bool.and_false _)
  have hempty := (hfirst i p hp).2
  have hfull := (hfirst j q hq).2
  rw [routine_add t hi] at hempty
  rw [routine_remove t hj] at hfull
  have hf := h.full
  have hr := h.room
  change _ = 10 at hr
  change w.buf.sem .empty = 0 at hempty
  change w.buf.sem .full = 0 at hfull
  omega

omit [DecidableEq ι] in
/-- **The units of `empty` and `full`**, with those that processes hold, are always as
many as the slots. -/
theorem units (h : Sound adds t w) :
    w.buf.sem .empty + w.buf.sem .full + w.permits = bufferSize := by
  have hp := w.permits_eq adds
  have hf := h.full
  have hr := h.room
  omega

end Sound

end EmbeddedLinux.Restaurant
