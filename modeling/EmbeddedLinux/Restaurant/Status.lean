import EmbeddedLinux.Restaurant.Program
import EmbeddedLinux.Lib.Scan

/-!
# The status line

`print_buffer_state` reads the slots one at a time and without the mutex, so it may put
together slots from ten moments.  Still the number it prints for a tray is the number
of filled slots that the tray had at one moment between the first and the last of its
reads (`status_is_real`).  And it always comes to print: each slot is read once, and what is
printed is how many of them were found filled.

This rests on how the trays are used: `add_item` fills the lowest `EMPTY` slot and
`remove_item` clears the lowest filled one (`Sound.bits_step`), while the scan ascends.
The library `Scan` has the argument.
-/

namespace EmbeddedLinux.Restaurant

open Tally Transition Scan

/-- The slots that are not `EMPTY`. -/
def SharedBuffer.bits (b : SharedBuffer) (j : Fin bufferSize) : Bool := b.items j != Item.empty

theorem SharedBuffer.held_bits (b : SharedBuffer) : held b.bits = b.filled := rfl

theorem SharedBuffer.bits_store (b : SharedBuffer) (j : Fin bufferSize) (x : Int) :
    (b.store j x).bits = Function.update b.bits j (x != Item.empty) := by
  funext l
  show (Function.update b.items j x l != Item.empty) = _
  rw [Function.update_apply, Function.update_apply]
  split <;> rfl

/-- **A step at a tray** leaves the slots, fills the lowest free one, or clears the lowest
filled one. -/
theorem Sound.bits_step {ι : Type*} [Fintype ι] [DecidableEq ι] {adds : ι → Bool} {t : Int}
    {w w' : Tray ι} (h : Sound adds t w) (ht : t ≠ Item.empty) (hs : TrayStep adds t w w') :
    w'.buf.bits = w.buf.bits ∨
    (∃ j, w.buf.bits j = false ∧ (∀ l < j, w.buf.bits l = true) ∧
      w'.buf.bits = Function.update w.buf.bits j true) ∨
    ∃ j, w.buf.bits j = true ∧ (∀ l < j, w.buf.bits l = false) ∧
      w'.buf.bits = Function.update w.buf.bits j false := by
  have hne : (t != Item.empty) = true := by simpa using ht
  cases hs with
  | enter hp => exact Or.inl rfl
  | @move i p b q hp hs =>
    obtain ⟨-, -, -, rfl⟩ | ⟨-, -, -, rfl⟩ | ⟨k, -, rfl, -⟩ | ⟨k, -, -, rfl, -⟩ | ⟨k, rfl, rfl, -⟩ |
      ⟨-, rfl, -⟩ | ⟨-, rfl, -⟩ := Routine.step_cases hs
    · exact Or.inl rfl
    · exact Or.inl rfl
    · exact Or.inl rfl
    · exact Or.inl rfl
    · right
      obtain ⟨hk, hlow⟩ := h.found i k hp
      have hbits : (w.move adds i (.write k) (w.buf.store k (routine adds t i).put) q).buf.bits =
          Function.update w.buf.bits k ((routine adds t i).put != Item.empty) :=
        w.buf.bits_store k _
      cases ha : adds i with
      | true =>
        left
        rw [hbits]
        rw [routine_add t ha] at hk hlow ⊢
        refine ⟨k, ?_, ?_, ?_⟩
        · rw [SharedBuffer.bits, hk]
          rfl
        · intro l hl
          have : w.buf.items l ≠ Item.empty := hlow l hl
          simpa [SharedBuffer.bits] using this
        · rw [show (addItem t).put = t from rfl, hne]
      | false =>
        right
        rw [hbits]
        rw [routine_remove t ha] at hk hlow ⊢
        refine ⟨k, ?_, ?_, rfl⟩
        · rw [SharedBuffer.bits, hk]
          exact hne
        · intro l hl
          rw [SharedBuffer.bits, (h.slots l).resolve_right (hlow l hl)]
          rfl
    · exact Or.inl rfl
    · exact Or.inl rfl

/-! ### The scan -/

namespace ScanPc

/-- How many slots of the tray have been read. -/
def slotsRead : ScanPc → Dish → Nat
  | .sleeping, _ => 0
  | .reading .nonVegan i _, .vegan => i.val + 1
  | .reading _ i _, _ => i.val
  | .printing _, _ => bufferSize

/-- The count for the tray so far. -/
def count : ScanPc → Dish → Nat
  | .sleeping, _ => 0
  | .reading _ _ count, d => count d
  | .printing count, d => count d

/-- **What a step of the parent is for one tray**: its scan is over or begins, or the
step is for the other tray, or it reads the next slot. -/
theorem step_cases (tray : Dish → SharedBuffer) (sc : ScanPc) (d : Dish) :
    ((sc.step tray).slotsRead d = 0 ∧ (sc.step tray).count d = 0) ∨
    ((sc.step tray).slotsRead d = sc.slotsRead d ∧ (sc.step tray).count d = sc.count d) ∨
    ∃ k : Fin bufferSize, (∃ count, sc = .reading d k count) ∧ sc.slotsRead d = k ∧
      (sc.step tray).slotsRead d = k + 1 ∧
      (sc.step tray).count d = sc.count d + ((tray d).bits k).toNat := by
  cases sc with
  | sleeping =>
    left
    cases d <;> exact ⟨rfl, rfl⟩
  | printing count =>
    left
    exact ⟨rfl, rfl⟩
  | reading e i count =>
    right
    have hcount : ((ScanPc.reading e i count).step tray).count d =
        Function.update count e (count e + ((tray e).bits i).toNat) d := by
      cases e with
      | vegan => rfl
      | nonVegan => rw [ScanPc.step]; split <;> rfl
    -- the last slot of the second tray is read last
    have hlast : ((ScanPc.reading .nonVegan i count).step tray).slotsRead d = i.val + 1 := by
      rw [ScanPc.step]
      split
      · cases d <;> rfl
      · show bufferSize = i.val + 1
        have := i.isLt
        omega
    by_cases hd : d = e
    · subst hd
      right
      rw [Function.update_self] at hcount
      cases d with
      | vegan => exact ⟨i, ⟨count, rfl⟩, rfl, rfl, hcount⟩
      | nonVegan => exact ⟨i, ⟨count, rfl⟩, rfl, hlast, hcount⟩
    · left
      rw [Function.update_of_ne hd] at hcount
      refine ⟨?_, hcount⟩
      cases e <;> cases d
      · exact absurd rfl hd
      · rfl
      · exact hlast
      · exact absurd rfl hd

/-- The steps that the parent has taken since it was in `sleep`. -/
def place : ScanPc → Nat
  | .sleeping => 0
  | .reading .vegan i _ => 2 * i.val + 1
  | .reading .nonVegan i _ => 2 * i.val + 2
  | .printing _ => 2 * bufferSize + 1

/-- **Every step leads on** to the `printf`, whatever is read. -/
theorem place_step (tray : Dish → SharedBuffer) {sc : ScanPc} (h : sc.place < 2 * bufferSize + 1) :
    (sc.step tray).place = sc.place + 1 := by
  cases sc with
  | sleeping => rfl
  | printing count => exact absurd h (Nat.lt_irrefl _)
  | reading d i count =>
    cases d with
    | vegan => rfl
    | nonVegan =>
      rw [ScanPc.step]
      split
      · rfl
      · have hi := i.isLt
        show 2 * bufferSize + 1 = 2 * i.val + 2 + 1
        omega

theorem printing_of_place {sc : ScanPc} (h : sc.place = 2 * bufferSize + 1) :
    ∃ count, sc = .printing count := by
  cases sc with
  | sleeping => cases h
  | printing count => exact ⟨count, rfl⟩
  | reading d i count =>
    have hi := i.isLt
    cases d <;> simp only [place] at h <;> omega

end ScanPc

/-- The step is one of the parent. -/
def Action.isParent {ι : Type*} : Action ι → Bool
  | .parent => true
  | .proc _ => false

/-- The step begins no new scan. -/
def Continues {ι : Type*} (s : State ι) : Action ι → Prop
  | .proc _ => True
  | .parent => s.scan ≠ .sleeping

section
variable {ι : Type*} [Fintype ι] [DecidableEq ι]

/-- At a moment of the scan that `s` is in, between the first and the last read of the
tray, the tray had `n` filled slots. -/
def Seen (role : ι → Role) (s : State ι) (d : Dish) (n : Nat) : Prop :=
  ∃ u, Reachable (step role) Any (initial role) u ∧ Reachable (step role) Continues u s ∧
    1 ≤ u.scan.slotsRead d ∧ u.scan.slotsRead d < bufferSize ∧ (u.tray d).filled = n

/-- What is known of a scan while it goes on. -/
structure Watched (role : ι → Role) (s : State ι) (d : Dish) : Prop where
  start : s.scan.slotsRead d = 0 → s.scan.count d = 0
  amid : 1 ≤ s.scan.slotsRead d → s.scan.slotsRead d < bufferSize →
    ∃ W : Set Nat, (∀ n ∈ W, Seen role s d n) ∧
      Between (s.tray d).bits (s.scan.slotsRead d) (s.scan.count d) W
  done : s.scan.slotsRead d = bufferSize → Seen role s d (s.scan.count d)

variable {role : ι → Role} {s t : State ι} {d : Dish}

omit [Fintype ι] in
theorem seen_self (hr : Reachable (step role) Any (initial role) s)
    (h1 : 1 ≤ s.scan.slotsRead d) (h2 : s.scan.slotsRead d < bufferSize) :
    Seen role s d (s.tray d).filled :=
  ⟨s, hr, Reachable.refl s, h1, h2, rfl⟩

omit [Fintype ι] in
theorem Seen.step {a : Action ι} {n : Nat} (h : Seen role s d n) (hc : Continues s a)
    (hn : step role s a = some t) : Seen role t d n := by
  obtain ⟨u, hu, hus, h1, h2, hf⟩ := h
  exact ⟨u, hu, hus.step hc hn, h1, h2, hf⟩

/-- A process moves: the scan stays where it is, and the tray may change. -/
theorem Watched.proc {i : ι} (h : Watched role s d)
    (hr : Reachable (Restaurant.step role) Any (initial role) s)
    (hn : Restaurant.step role s (.proc i) = some t) : Watched role t d := by
  have hscan : t.scan = s.scan := by
    obtain ⟨ha, -⟩ | ⟨j, e, -, -, rfl⟩ | ⟨j, e, p, b, q, -, -, -, rfl⟩ := step_cases hn
    · cases ha
    · rfl
    · rfl
  have hrt := hr.step trivial hn
  have hcont : Continues s (.proc i) := trivial
  refine ⟨?_, ?_, ?_⟩
  · rw [hscan]
    exact h.start
  · rw [hscan]
    intro h1 h2
    obtain ⟨W, hW, hb⟩ := h.amid h1 h2
    have hW' : ∀ n ∈ W, Seen role t d n := fun n hmem => (hW n hmem).step hcont hn
    have hnow : Seen role t d (t.tray d).filled :=
      seen_self hrt (by rw [hscan]; exact h1) (by rw [hscan]; exact h2)
    have hsound := sound_run hr d
    -- a changed tray adds the number it holds now to those seen
    have hins : ∀ n ∈ insert (t.tray d).filled W, Seen role t d n := by
      rintro n (rfl | hmem)
      · exact hnow
      · exact hW' n hmem
    have hbits : (t.tray d).bits = (s.tray d).bits ∨
        (∃ j, (s.tray d).bits j = false ∧ (∀ l < j, (s.tray d).bits l = true) ∧
          (t.tray d).bits = Function.update (s.tray d).bits j true) ∨
        ∃ j, (s.tray d).bits j = true ∧ (∀ l < j, (s.tray d).bits l = false) ∧
          (t.tray d).bits = Function.update (s.tray d).bits j false := by
      rcases step_tray hn d with he | hs
      · left
        rw [show t.tray d = s.tray d from congrArg Tray.buf he]
      · exact hsound.bits_step d.itemType_ne hs
    rcases hbits with he | ⟨j, hj, hlow, he⟩ | ⟨j, hj, hlow, he⟩
    · exact ⟨W, hW', by rw [he]; exact hb⟩
    · refine ⟨_, hins, ?_⟩
      rw [← SharedBuffer.held_bits, he]
      exact hb.fill (le_of_lt h2) hj hlow
    · refine ⟨_, hins, ?_⟩
      rw [← SharedBuffer.held_bits, he]
      exact hb.clear hj hlow
  · rw [hscan]
    intro h10
    exact (h.done h10).step hcont hn

omit [Fintype ι] [DecidableEq ι] in
/-- A scan that has read a slot goes on. -/
theorem continues_parent (hne : s.scan.slotsRead d ≠ 0) : Continues s (.parent : Action ι) := by
  intro e
  rw [e] at hne
  exact hne rfl

omit [Fintype ι] in
/-- The parent moves: the trays stay, and the scan may read a slot. -/
theorem Watched.parent (h : Watched role s d)
    (hr : Reachable (Restaurant.step role) Any (initial role) s)
    (hn : Restaurant.step role s .parent = some t) : Watched role t d := by
  have hrt := hr.step trivial hn
  have ht : t = { s with scan := s.scan.step s.tray } := by
    obtain ⟨-, ht⟩ | ⟨j, e, ha, -⟩ | ⟨j, e, p, b, q, ha, -⟩ := step_cases hn
    · exact ht
    · cases ha
    · cases ha
  have htray : t.tray = s.tray := by rw [ht]
  have hscan : t.scan = s.scan.step s.tray := by rw [ht]
  have hcont : s.scan.slotsRead d ≠ 0 → Continues s (.parent : Action ι) := continues_parent
  rcases ScanPc.step_cases s.tray s.scan d with ⟨h0, hc⟩ | ⟨he, hc⟩ | ⟨k, -, hk, he, hc⟩
  · rw [← hscan] at h0 hc
    refine ⟨fun _ => hc, fun h1 => ?_, fun h1 => ?_⟩
    · omega
    · rw [h0] at h1
      cases h1
  · rw [← hscan] at he hc
    refine ⟨?_, ?_, ?_⟩
    · rw [he, hc]
      exact h.start
    · rw [he, hc, htray]
      intro h1 h2
      obtain ⟨W, hW, hb⟩ := h.amid h1 h2
      exact ⟨W, fun n hmem => (hW n hmem).step (hcont (by omega)) hn, hb⟩
    · rw [he, hc]
      intro h10
      refine (h.done h10).step (hcont ?_) hn
      rw [h10]
      decide
  · rw [← hscan] at he hc
    have hkb := k.isLt
    -- the next slot is the first one, or one more of a scan that goes on
    have hread : ∃ W : Set Nat, (∀ n ∈ W, Seen role t d n) ∧
        Between (s.tray d).bits (k.val + 1) (t.scan.count d) W := by
      by_cases hk0 : k.val = 0
      · have hcount := h.start (hk.trans hk0)
        have hk' : k = 0 := Fin.ext hk0
        rw [hcount, hk', Nat.zero_add] at hc
        refine ⟨{(s.tray d).filled}, ?_, ?_⟩
        · rintro n rfl
          rw [← htray]
          refine seen_self hrt (by omega) ?_
          rw [he, hk0]
          decide
        · rw [hc, hk']
          exact Between.first _
      · obtain ⟨W, hW, hb⟩ := h.amid (by omega) (by omega)
        refine ⟨W, fun n hmem => (hW n hmem).step (hcont (by omega)) hn, ?_⟩
        rw [hk] at hb
        rw [hc]
        exact hb.read
    obtain ⟨W, hW, hb⟩ := hread
    refine ⟨fun h0 => ?_, fun _ _ => ⟨W, hW, ?_⟩, fun h10 => ?_⟩
    · omega
    · rw [he, htray]
      exact hb
    · rw [← he, h10] at hb
      exact hW _ hb.count_mem

theorem watched_run (hr : Reachable (Restaurant.step role) Any (initial role) s) (d : Dish) :
    Watched role s d := by
  refine hr.invariant_reached (P := fun s => Watched role s d)
    ⟨fun _ => rfl, fun h1 => ?_, fun h10 => ?_⟩ ?_
  · cases h1
  · cases h10
  · intro s a t hs hw _ hn
    cases a with
    | proc i => exact hw.proc hs hn
    | parent => exact hw.parent hs hn

/-! ### What is counted -/

/-- In the scan that `s` is in, slot `i` of the tray was read, and it was filled if `x` says so. -/
def ReadAs (role : ι → Role) (s : State ι) (d : Dish) (i : Fin bufferSize) (x : Bool) : Prop :=
  ∃ u v, Reachable (step role) Any (initial role) u ∧ (∃ count, u.scan = .reading d i count) ∧
    (u.tray d).bits i = x ∧ Restaurant.step role u .parent = some v ∧
    Reachable (step role) Continues v s

omit [Fintype ι] in
theorem ReadAs.step {a : Action ι} {i : Fin bufferSize} {x : Bool} (h : ReadAs role s d i x)
    (hc : Continues s a) (hn : Restaurant.step role s a = some t) : ReadAs role t d i x := by
  obtain ⟨u, v, hu, hread, hx, huv, hvs⟩ := h
  exact ⟨u, v, hu, hread, hx, huv, hvs.step hc hn⟩

/-- The slots that were read, with what was found in them, and 0 for the others. -/
structure Found (role : ι → Role) (s : State ι) (d : Dish) (found : Fin bufferSize → Bool) :
    Prop where
  read : ∀ i, i.val < s.scan.slotsRead d → ReadAs role s d i (found i)
  unread : ∀ i, s.scan.slotsRead d ≤ i.val → found i = false
  count : s.scan.count d = held found

variable {found : Fin bufferSize → Bool}

omit [Fintype ι] in
/-- A slot is read. -/
theorem Found.slot (h : Found role s d found) {k : Fin bufferSize}
    (hr : Reachable (Restaurant.step role) Any (initial role) s)
    (hread : ∃ count, s.scan = .reading d k count)
    (hk : s.scan.slotsRead d = k) (he : t.scan.slotsRead d = k + 1)
    (hc : t.scan.count d = s.scan.count d + ((s.tray d).bits k).toNat)
    (hn : Restaurant.step role s .parent = some t) :
    Found role t d (Function.update found k ((s.tray d).bits k)) := by
  have hcont : Continues s (.parent : Action ι) := by
    obtain ⟨count, hscan⟩ := hread
    rw [Continues, hscan]
    exact fun e => by cases e
  refine ⟨fun i hi => ?_, fun i hi => ?_, ?_⟩
  · rw [he] at hi
    by_cases hik : i = k
    · subst hik
      rw [Function.update_self]
      exact ⟨s, t, hr, hread, rfl, hn, Reachable.refl t⟩
    · rw [Function.update_of_ne hik]
      have hne : i.val ≠ k.val := fun e => hik (Fin.ext e)
      exact (h.read i (by omega)).step hcont hn
  · rw [he] at hi
    have hne : i ≠ k := by
      rintro rfl
      omega
    rw [Function.update_of_ne hne]
    exact h.unread i (by omega)
  · have hsum := tally_update (fun (_ : Fin bufferSize) x => x) found k ((s.tray d).bits k)
    rw [h.unread k (le_of_eq hk)] at hsum
    rw [hc, h.count]
    exact hsum.symm

omit [Fintype ι] in
/-- Nothing is read of the tray. -/
theorem Found.keep {a : Action ι} (h : Found role s d found)
    (hcont : s.scan.slotsRead d ≠ 0 → Continues s a)
    (he : t.scan.slotsRead d = s.scan.slotsRead d) (hc : t.scan.count d = s.scan.count d)
    (hn : Restaurant.step role s a = some t) : Found role t d found := by
  refine ⟨fun i hi => ?_, fun i hi => ?_, ?_⟩
  · rw [he] at hi
    exact (h.read i hi).step (hcont (by omega)) hn
  · rw [he] at hi
    exact h.unread i hi
  · rw [hc]
    exact h.count

omit [Fintype ι] in
/-- No slot has been read. -/
theorem found_none (h0 : s.scan.slotsRead d = 0) (hc : s.scan.count d = 0) :
    Found role s d (fun _ => false) := by
  refine ⟨fun i hi => ?_, fun _ _ => rfl, ?_⟩
  · rw [h0] at hi
    exact absurd hi (Nat.not_lt_zero _)
  · rw [hc]
    exact (tally_eq_zero.2 (fun _ => rfl)).symm

omit [Fintype ι] in
theorem found_step {a : Action ι} (h : ∃ found, Found role s d found)
    (hr : Reachable (Restaurant.step role) Any (initial role) s)
    (hn : Restaurant.step role s a = some t) : ∃ found, Found role t d found := by
  obtain ⟨found, h⟩ := h
  obtain ⟨rfl, ht⟩ | ⟨i, e, rfl, -, ht⟩ | ⟨i, e, p, b, q, rfl, -, -, ht⟩ := step_cases hn
  · have hscan : t.scan = s.scan.step s.tray := by rw [ht]
    rcases ScanPc.step_cases s.tray s.scan d with ⟨h0, hc⟩ | ⟨he, hc⟩ | ⟨k, hread, hk, he, hc⟩
    · rw [← hscan] at h0 hc
      exact ⟨_, found_none h0 hc⟩
    · rw [← hscan] at he hc
      exact ⟨found, h.keep continues_parent he hc hn⟩
    · rw [← hscan] at he hc
      exact ⟨_, h.slot hr hread hk he hc hn⟩
  -- a process moves, and the scan stays where it is
  · subst ht
    exact ⟨found, h.keep (a := .proc i) (fun _ => trivial) rfl rfl hn⟩
  · subst ht
    exact ⟨found, h.keep (a := .proc i) (fun _ => trivial) rfl rfl hn⟩

omit [Fintype ι] in
theorem found_run (hr : Reachable (Restaurant.step role) Any (initial role) s) (d : Dish) :
    ∃ found, Found role s d found := by
  refine hr.invariant_reached (P := fun s => ∃ found, Found role s d found)
    ⟨_, found_none rfl rfl⟩ ?_
  intro s a t hs hf _ hn
  exact found_step hf hs hn

omit [Fintype ι] in
/-- **The scan comes to its `printf`** with as many steps of the parent as it takes. -/
theorem place_run {as : List (Action ι)} (hr : Run (Restaurant.step role) Any s as t)
    (hle : s.scan.place + as.countP Action.isParent ≤ 2 * bufferSize + 1) :
    t.scan.place = s.scan.place + as.countP Action.isParent := by
  induction hr with
  | nil => rfl
  | @snoc u t as a hr _ hn ih =>
    rw [List.countP_append, List.countP_singleton] at hle ⊢
    obtain ⟨rfl, rfl⟩ | ⟨i, e, rfl, -, rfl⟩ | ⟨i, e, p, b, q, rfl, -, -, rfl⟩ := step_cases hn
    · have hlt : s.scan.place + as.countP Action.isParent < 2 * bufferSize + 1 := hle
      have hplace := ih (le_of_lt hlt)
      show (u.scan.step u.tray).place = s.scan.place + (as.countP Action.isParent + 1)
      rw [ScanPc.place_step _ (by omega), hplace, Nat.add_assoc]
    · exact ih hle
    · exact ih hle

/-! ### The main result -/

/-- **The status line reports a real count.**  When `print_buffer_state` is about to print, it has
read each slot of a tray once, and the number it has for the tray is that of the slots it has found
filled.  It is also the number of filled slots that the tray had in a state of this scan with at
least one slot of it read and at least one still to be read.  And once the parent has slept it can
always go on, and comes to its `printf` after it has entered `print_buffer_state` and tested the ten
slots of both trays, whatever the others do meanwhile. -/
theorem status_is_real (hr : Reachable (Restaurant.step role) Any (initial role) s) :
    (∀ count d, s.scan = .printing count →
      (∃ found : Fin bufferSize → Bool, (∀ i, ReadAs role s d i (found i)) ∧
        count d = held found) ∧
      ∃ u, Reachable (Restaurant.step role) Any (initial role) u ∧
        Reachable (Restaurant.step role) Continues u s ∧ 1 ≤ u.scan.slotsRead d ∧
        u.scan.slotsRead d < bufferSize ∧ (u.tray d).filled = count d) ∧
    (∃ t, Restaurant.step role s .parent = some t) ∧
    (s.scan = .sleeping → ∀ as t, Run (Restaurant.step role) Any s as t →
      as.countP Action.isParent = 2 * bufferSize + 1 → ∃ count, t.scan = .printing count) := by
  refine ⟨fun count d hp => ⟨?_, ?_⟩, ⟨_, rfl⟩, fun hsleep as t hrun hsteps => ?_⟩
  · obtain ⟨found, hread, -, hcount⟩ := found_run hr d
    rw [hp] at hread hcount
    exact ⟨found, fun i => hread i i.isLt, hcount⟩
  · have h := (watched_run hr d).done
    rw [hp] at h
    exact h rfl
  · have hplace : s.scan.place = 0 := by
      rw [hsleep]
      rfl
    have ht := place_run hrun (by omega)
    rw [hplace, hsteps, Nat.zero_add] at ht
    exact ScanPc.printing_of_place ht

/-- Portecelli fills slot 0, the scan reads the first slots, and the second customer clears
slot 0. -/
def goneDish : List (Action (Fin 5)) :=
  List.replicate 8 (.proc portecelli) ++ List.replicate 3 .parent ++
    List.replicate 5 (.proc ⟨3, by decide⟩) ++ List.replicate 18 .parent

/-- It reports the dish it has seen, and the tray is empty by then. -/
theorem status_is_real_gone :
    ∃ s count, exec (step mainRoles) (initial mainRoles) goneDish = some s ∧
      s.scan = .printing count ∧ count .vegan = 1 ∧ (s.tray .vegan).filled = 0 ∧
      (∃ found : Fin bufferSize → Bool, (∀ i, ReadAs mainRoles s .vegan i (found i)) ∧
        count .vegan = held found) ∧
      ∃ u, Reachable (step mainRoles) Any (initial mainRoles) u ∧
        Reachable (step mainRoles) Continues u s ∧ 1 ≤ u.scan.slotsRead .vegan ∧
        u.scan.slotsRead .vegan < bufferSize ∧ (u.tray .vegan).filled = count .vegan := by
  have hr : Reachable (step mainRoles) Any (initial mainRoles) _ := ⟨goneDish, exec_run rfl⟩
  exact ⟨_, _, rfl, rfl, rfl, rfl, (status_is_real hr).1 _ .vegan rfl⟩

end

end EmbeddedLinux.Restaurant
