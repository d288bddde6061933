import EmbeddedLinux.Lib.Progress
import EmbeddedLinux.RwLock.History

/-!
# Who gets the lock

Nobody is shut out for good: a thread that has the lock is in its section and can go on to its end
there, whatever the others do, so from every state each thread can still get the lock.  But nothing
makes it so.  A reader gets the lock while other readers have it, so two readers that take turns
keep every writer out for as long as they like (`turns`).
-/

namespace EmbeddedLinux.RwLock

open Interference Transition

variable {T : Type*} [DecidableEq T]

/-! ### Who has the lock -/

/-- Between `pthread_rwlock_rdlock` and `pthread_rwlock_unlock`. -/
def Pc.reading : Pc → Bool
  | rdload _ | rdprint _ _ | rdunlock => true
  | _ => false

/-- Between `pthread_rwlock_wrlock` and `pthread_rwlock_unlock`. -/
def Pc.writing : Pc → Bool
  | wrload | wrstore _ | wrreload | wrprint _ | wrunlock => true
  | _ => false

def Pc.role : Pc → Role
  | rdlock | rdload _ | rdprint _ _ | rdunlock | rdsleep => .reader
  | wrlock | wrload | wrstore _ | wrreload | wrprint _ | wrunlock | wrsleep => .writer

/-- The lock is not had by readers and a writer at the same time. -/
def Exclusive (m : Memory T) : Prop := m.writer ≠ none → m.readers = ∅

/-- The thread has the lock exactly in its section. -/
structure Holding (role : T → Role) (t : T) (pc : Pc) (m : Memory T) : Prop where
  reader : t ∈ m.readers ↔ pc.reading = true
  writer : m.writer = some t ↔ pc.writing = true
  role : pc.role = role t

variable {role : T → Role} {t u : T} {m m' : Memory T} {pc pc' : Pc}
  {s s' : State T (Memory T) Pc}

theorem holding_own (hm : Exclusive m) (ha : Holding role t pc m)
    (h : step t () m pc = some (m', pc')) : Exclusive m' ∧ Holding role t pc' m' := by
  obtain ⟨hreader, hwriter, hrole⟩ := ha
  cases pc with
  | rdlock =>
    simp only [step] at h
    split at h
    · rename_i hnone
      cases h
      refine ⟨fun hw => absurd hnone hw, ?_, hwriter, hrole⟩
      simp [Pc.reading]
    · cases h
  | rdunlock =>
    cases h
    refine ⟨fun hw => ?_, ?_, hwriter, hrole⟩
    · show m.readers.erase t = ∅
      rw [hm hw]
      rfl
    · simp [Pc.reading]
  | wrlock =>
    simp only [step] at h
    split at h
    · rename_i hfree
      cases h
      exact ⟨fun _ => hfree.2, hreader, by simp [Pc.writing], hrole⟩
    · cases h
  | wrunlock =>
    cases h
    exact ⟨fun hw => absurd rfl hw, hreader, by simp [Pc.writing], hrole⟩
  | _ =>
    cases h
    exact ⟨hm, hreader, hwriter, hrole⟩

theorem holding_others (ha : Holding role t pc m) {k : Pc} (hu : Holding role u k m) (hne : u ≠ t)
    (h : step t () m pc = some (m', pc')) : Holding role u k m' := by
  obtain ⟨hreader, hwriter, hrole⟩ := hu
  cases pc with
  | rdlock =>
    simp only [step] at h
    split at h
    · cases h
      refine ⟨?_, hwriter, hrole⟩
      rw [Finset.mem_insert, or_iff_right hne]
      exact hreader
    · cases h
  | rdunlock =>
    cases h
    refine ⟨?_, hwriter, hrole⟩
    rw [Finset.mem_erase, and_iff_right hne]
    exact hreader
  | wrlock =>
    simp only [step] at h
    split at h
    · rename_i hfree
      cases h
      refine ⟨hreader, ?_, hrole⟩
      rw [← hwriter, hfree.1]
      simp [Ne.symm hne]
    · cases h
  | wrunlock =>
    cases h
    refine ⟨hreader, ?_, hrole⟩
    rw [← hwriter, ha.writer.2 rfl]
    simp [Ne.symm hne]
  | _ =>
    cases h
    exact ⟨hreader, hwriter, hrole⟩

theorem holding_outline (role : T → Role) :
    Outline (step (T := T)) (fun _ _ _ _ => True) Exclusive (Holding role) where
  own _ _ _ _ _ _ hm ha _ h := holding_own hm ha h
  others _ _ _ _ _ _ _ _ hne _ ha hu _ h := holding_others ha hu hne h

omit [DecidableEq T] in
theorem holding_initial (role : T → Role) : Holds Exclusive (Holding role) (initial role) := by
  refine ⟨fun _ => rfl, fun t => ?_⟩
  show Holding role t (role t).start _
  cases h : role t
  · exact ⟨by simp [initial, Role.start, Pc.reading], by simp [initial, Role.start, Pc.writing],
      h.symm⟩
  · exact ⟨by simp [initial, Role.start, Pc.reading], by simp [initial, Role.start, Pc.writing],
      h.symm⟩

/-! ### The end of the sections -/

/-- The steps to the end of a section. -/
def Pc.left : Pc → Nat
  | rdload _ => 3
  | rdprint _ _ => 2
  | rdunlock => 1
  | wrload => 5
  | wrstore _ => 4
  | wrreload => 3
  | wrprint _ => 2
  | wrunlock => 1
  | _ => 0

/-- Only threads in their sections move. -/
def Inside (s : State T (Memory T) Pc) (a : T × Unit) : Prop := (s.pc a.1).left ≠ 0

/-- Nobody is in a section. -/
def Outside (s : State T (Memory T) Pc) : Prop := ∀ t, (s.pc t).left = 0

/-- In a section a thread never waits. -/
theorem step_inside (t : T) (m : Memory T) (h : pc.left ≠ 0) :
    ∃ m' pc', step t () m pc = some (m', pc') ∧ pc'.left < pc.left := by
  cases pc with
  | rdlock | rdsleep | wrlock | wrsleep => exact absurd rfl h
  | _ => exact ⟨_, _, rfl, Nat.lt_succ_self _⟩

variable [Fintype T]

theorem leaving (role : T → Role) : Progress (next (step (T := T))) Inside
    (Holds Exclusive (Holding role)) Outside (fun s => ∑ t, (s.pc t).left) where
  keep _ _ _ hs _ hn := (holding_outline role).keep hs trivial hn
  down s a s' _ hok hn := by
    obtain ⟨m, pc, hstep, rfl⟩ := next_eq_some.1 hn
    obtain ⟨m', pc', hstep', hlt⟩ := step_inside a.1 s.mem hok
    obtain ⟨rfl, rfl⟩ : m' = m ∧ pc' = pc := by simpa using hstep'.symm.trans hstep
    let rank : T → Pc → Nat := fun _ => Pc.left
    have hlt' : rank a.1 pc' < rank a.1 (s.pc a.1) := hlt
    exact sum_move_lt hlt'
  goes s _ hnot := by
    obtain ⟨t, ht⟩ := not_forall.1 hnot
    obtain ⟨m, pc, hstep, -⟩ := step_inside t s.mem ht
    exact ⟨(t, ()), s.move t m pc, ht, next_eq_some.2 ⟨m, pc, hstep, rfl⟩⟩

omit [Fintype T] [DecidableEq T] in
/-- Then the lock is free. -/
theorem free_of_outside (hs : Holds Exclusive (Holding role) s) (hout : Outside s) :
    s.mem.writer = none ∧ s.mem.readers = ∅ := by
  constructor
  · cases hw : s.mem.writer with
    | none => rfl
    | some t =>
      have hpc := (hs.2 t).writer.1 hw
      have hleft := hout t
      cases hp : s.pc t <;> rw [hp] at hpc hleft <;> cases hpc <;> cases hleft
  · refine Finset.eq_empty_of_forall_notMem (fun t ht => ?_)
    have hpc := (hs.2 t).reader.1 ht
    have hleft := hout t
    cases hp : s.pc t <;> rw [hp] at hpc hleft <;> cases hpc <;> cases hleft

/-- Those that are in their sections leave them. -/
theorem exists_outside (hs : Holds Exclusive (Holding role) s) :
    ∃ s', Reachable (next step) Any s s' ∧ Holds Exclusive (Holding role) s' ∧ Outside s' := by
  obtain ⟨s', hr, hs', hout⟩ := (leaving role).exists_final hs
  exact ⟨s', hr.mono (fun _ _ _ => trivial), hs', hout⟩

/-! ### Getting the lock -/

/-- The thread has just got the lock. -/
def Entered (role : Role) (t : T) (s : State T (Memory T) Pc) : Prop :=
  match role with
  | .reader => t ∈ s.mem.readers ∧ ∃ b, s.pc t = .rdload b
  | .writer => s.mem.writer = some t ∧ s.pc t = .wrload

omit [Fintype T] in
/-- A thread gets the free lock, and the others stay where they are. -/
theorem exists_entered (hs : Holds Exclusive (Holding role) s) (hout : Outside s) (t : T) :
    ∃ s', Reachable (next step) Any s s' ∧ Entered (role t) t s' ∧
      ∀ u, u ≠ t → s'.pc u = s.pc u := by
  obtain ⟨hwriter, hreaders⟩ := free_of_outside hs hout
  have hrole := (hs.2 t).role
  have hleft := hout t
  let b : Began := { sections := s.mem.sections, reads := s.mem.reads.length }
  let m₁ : Memory T := { s.mem with readers := insert t s.mem.readers }
  let m₂ : Memory T := { s.mem with writer := some t }
  have hread : Reachable (next step) Any s (s.move t m₁ (.rdload b)) →
        role t = .reader → ∃ s', Reachable (next step) Any s s' ∧ Entered (role t) t s' ∧
          ∀ u, u ≠ t → s'.pc u = s.pc u := by
    intro hr hreader
    refine ⟨_, hr, ?_, fun u hu => State.move_of_ne hu ..⟩
    rw [hreader]
    exact ⟨Finset.mem_insert_self _ _, _, State.move_self ..⟩
  have hwrite : Reachable (next step) Any s (s.move t m₂ .wrload) →
        role t = .writer → ∃ s', Reachable (next step) Any s s' ∧ Entered (role t) t s' ∧
          ∀ u, u ≠ t → s'.pc u = s.pc u := by
    intro hr hwr
    refine ⟨_, hr, ?_, fun u hu => State.move_of_ne hu ..⟩
    rw [hwr]
    exact ⟨rfl, State.move_self ..⟩
  cases hp : s.pc t with
  | rdlock =>
    rw [hp] at hrole
    have hsolo : solo step t [()] s.mem (s.pc t) = some (m₁, .rdload b) := by
      rw [hp, solo, step, if_pos hwriter]
      rfl
    exact hread (reachable_solo hsolo) hrole.symm
  | rdsleep =>
    rw [hp] at hrole
    have hsolo : solo step t [(), ()] s.mem (s.pc t) = some (m₁, .rdload b) := by
      rw [hp, solo, step, Option.bind_some, solo, step, if_pos hwriter]
      rfl
    exact hread (reachable_solo hsolo) hrole.symm
  | wrlock =>
    rw [hp] at hrole
    have hsolo : solo step t [()] s.mem (s.pc t) = some (m₂, .wrload) := by
      rw [hp, solo, step, if_pos ⟨hwriter, hreaders⟩]
      rfl
    exact hwrite (reachable_solo hsolo) hrole.symm
  | wrsleep =>
    rw [hp] at hrole
    have hsolo : solo step t [(), ()] s.mem (s.pc t) = some (m₂, .wrload) := by
      rw [hp, solo, step, Option.bind_some, solo, step, if_pos ⟨hwriter, hreaders⟩]
      rfl
    exact hwrite (reachable_solo hsolo) hrole.symm
  | _ =>
    rw [hp] at hleft
    cases hleft

/-! ### Keeping the lock from the writers -/

/-- The lock is not free for a writer. -/
def Crowded (s : State T (Memory T) Pc) (_ : T × Unit) : Prop := s.mem.readers ≠ ∅

/-- One reader has the lock, and another one is about to take it. -/
structure Relay (r₁ r₂ : T) (s : State T (Memory T) Pc) : Prop where
  writer : s.mem.writer = none
  mem : r₁ ∈ s.mem.readers
  first : ∃ b, s.pc r₁ = .rdload b
  second : s.pc r₂ = .rdlock

omit [Fintype T] in
theorem step_of {m : Memory T} (h : step t () s.mem (s.pc t) = some (m, pc)) :
    next step s (t, ()) = some (s.move t m pc) :=
  next_eq_some.2 ⟨m, pc, h, rfl⟩

omit [Fintype T] in
/-- The same thread again. -/
theorem step_again (h : step t () m pc = some (m', pc')) :
    next step (s.move t m pc) (t, ()) = some (s.move t m' pc') := by
  have hstep : step t () (s.move t m pc).mem ((s.move t m pc).pc t) = some (m', pc') := by
    rw [State.move_self]
    exact h
  rw [step_of hstep, State.move_move]

omit [Fintype T] in
/-- The second reader takes the lock before the first one gives it back. -/
theorem relay {r₁ r₂ : T} (hne : r₁ ≠ r₂) (h : Relay r₁ r₂ s) :
    ∃ s', Reachable (next step) Crowded s s' ∧ Relay r₂ r₁ s' ∧
      s'.mem.reads.length = s.mem.reads.length + 1 := by
  obtain ⟨hwriter, hmem, ⟨b, hfirst⟩, hsecond⟩ := h
  -- `r₂` takes the lock, and then `r₁` goes through its section and back to the lock
  let m₁ : Memory T := { s.mem with readers := insert r₂ s.mem.readers }
  let b' : Began := { sections := s.mem.sections, reads := s.mem.reads.length }
  let m₂ : Memory T := { m₁ with reads := m₁.reads ++ [{ began := b, value := m₁.resource }] }
  let m₃ : Memory T := { m₂ with readers := m₂.readers.erase r₁ }
  let s₁ := s.move r₂ m₁ (.rdload b')
  have hpc₁ : s₁.pc r₁ = .rdload b := (State.move_of_ne hne ..).trans hfirst
  have hpc₂ : s₁.pc r₂ = .rdload b' := State.move_self ..
  have h₁ : next step s (r₂, ()) = some s₁ := step_of (by rw [hsecond, step, if_pos hwriter])
  have h₂ : next step s₁ (r₁, ()) = some (s₁.move r₁ m₁ (.rdprint b m₁.resource)) :=
    step_of (by rw [hpc₁]; rfl)
  have h₃ : next step (s₁.move r₁ m₁ (.rdprint b m₁.resource)) (r₁, ()) =
      some (s₁.move r₁ m₂ .rdunlock) := step_again rfl
  have h₄ : next step (s₁.move r₁ m₂ .rdunlock) (r₁, ()) = some (s₁.move r₁ m₃ .rdsleep) :=
    step_again rfl
  have h₅ : next step (s₁.move r₁ m₃ .rdsleep) (r₁, ()) = some (s₁.move r₁ m₃ .rdlock) :=
    step_again rfl
  have hin : r₂ ∈ m₁.readers := Finset.mem_insert_self ..
  have hin' : r₂ ∈ m₃.readers := Finset.mem_erase.2 ⟨hne.symm, hin⟩
  have hreach : Reachable (next step) Crowded s (s₁.move r₁ m₃ .rdlock) :=
    ((((Reachable.refl s).step (Finset.ne_empty_of_mem hmem) h₁).step
      (Finset.ne_empty_of_mem hin) h₂).step (Finset.ne_empty_of_mem hin) h₃).step
        (Finset.ne_empty_of_mem hin) h₄ |>.step (Finset.ne_empty_of_mem hin') h₅
  refine ⟨_, hreach, ⟨hwriter, hin', ⟨b', ?_⟩, State.move_self ..⟩, ?_⟩
  · rw [State.move_of_ne hne.symm]
    exact hpc₂
  · show (s.mem.reads ++ [_]).length = _
    rw [List.length_append]
    rfl

omit [Fintype T] in
/-- As long as they like. -/
theorem relays {r₁ r₂ : T} (hne : r₁ ≠ r₂) (h : Relay r₁ r₂ s) (n : Nat) :
    ∃ s', Reachable (next step) Crowded s s' ∧ s'.mem.reads.length = s.mem.reads.length + n := by
  induction n generalizing s r₁ r₂ with
  | zero => exact ⟨s, .refl s, rfl⟩
  | succ n ih =>
    obtain ⟨s₁, hr₁, hrelay, hlen₁⟩ := relay hne h
    obtain ⟨s₂, hr₂, hlen₂⟩ := ih hne.symm hrelay
    exact ⟨s₂, hr₁.trans hr₂, by omega⟩

/-- Any two readers can begin. -/
theorem exists_relay (hs : Holds Exclusive (Holding role) s) {r₁ r₂ : T} (hne : r₁ ≠ r₂)
    (h₁ : role r₁ = .reader) (h₂ : role r₂ = .reader) :
    ∃ s', Reachable (next step) Any s s' ∧ Relay r₁ r₂ s' := by
  obtain ⟨s₁, hr₁, hs₁, hout⟩ := exists_outside hs
  obtain ⟨s₂, hr₂, hentered, hframe⟩ := exists_entered hs₁ hout r₁
  rw [h₁] at hentered
  obtain ⟨hmem, hpc⟩ := hentered
  have hs₂ := (holding_outline role).any hs₁ hr₂
  have hwriter : s₂.mem.writer = none := by
    by_contra hw
    exact Finset.ne_empty_of_mem hmem (hs₂.1 hw)
  have hrole := (hs₂.2 r₂).role
  have hleft := hout r₂
  rw [← hframe r₂ hne.symm] at hleft
  rw [h₂] at hrole
  cases hp : s₂.pc r₂ with
  | rdlock => exact ⟨s₂, hr₁.trans hr₂, hwriter, hmem, hpc, hp⟩
  | rdsleep =>
    have hn : next step s₂ (r₂, ()) = some (s₂.move r₂ s₂.mem .rdlock) :=
      step_of (by rw [hp]; rfl)
    refine ⟨_, (hr₁.trans hr₂).step trivial hn, hwriter, hmem, ?_, State.move_self ..⟩
    rw [State.move_of_ne hne]
    exact hpc
  | rdload | rdprint | rdunlock =>
    rw [hp] at hleft
    cases hleft
  | _ =>
    rw [hp] at hrole
    cases hrole

/-! ### The main result -/

/-- **Who gets the lock.**  In any state each thread can still get it, when the others do no more
than leave their sections.  But any two readers can come to take turns, and then for as long as they
like the lock is not free for a writer, while they go on to read. -/
theorem turns (hr : Reachable (next step) Any (initial role) s) :
    (∀ t, ∃ s', Reachable (next step) Any s s' ∧ Entered (role t) t s') ∧
      ∀ r₁ r₂, r₁ ≠ r₂ → role r₁ = .reader → role r₂ = .reader →
        ∃ s₁, Reachable (next step) Any s s₁ ∧ ∀ n, ∃ s₂, Reachable (next step) Crowded s₁ s₂ ∧
          s₂.mem.reads.length = s₁.mem.reads.length + n := by
  have hs := (holding_outline role).any (holding_initial role) hr
  constructor
  · intro t
    obtain ⟨s₁, hr₁, hs₁, hout⟩ := exists_outside hs
    obtain ⟨s₂, hr₂, hentered, -⟩ := exists_entered hs₁ hout t
    exact ⟨s₂, hr₁.trans hr₂, hentered⟩
  · intro r₁ r₂ hne h₁ h₂
    obtain ⟨s₁, hr₁, hrelay⟩ := exists_relay hs hne h₁ h₂
    exact ⟨s₁, hr₁, relays hne hrelay⟩

/-- A writer is in its section.  A reader can still get the lock, and two readers can come to keep
the writer out for a thousand reads. -/
theorem turns_two : ∃ s, Reachable (next step) Any (initial (fun t : Fin 3 =>
      if t = 2 then Role.writer else Role.reader)) s ∧ s.mem.writer = some 2 ∧
    (∃ s', Reachable (next step) Any s s' ∧ 0 ∈ s'.mem.readers) ∧
    ∃ s₁ s₂, Reachable (next step) Any s s₁ ∧ Reachable (next step) Crowded s₁ s₂ ∧
      s₂.mem.reads.length = s₁.mem.reads.length + 1000 := by
  have hr : Reachable (next step) Any (initial (fun t : Fin 3 =>
      if t = 2 then Role.writer else Role.reader)) _ := ⟨[(2, ())], exec_run rfl⟩
  obtain ⟨hgets, hturns⟩ := turns hr
  obtain ⟨s', hs', hmem, -⟩ := hgets 0
  obtain ⟨s₁, hs₁, hcrowded⟩ := hturns 0 1 (by decide) rfl rfl
  obtain ⟨s₂, hs₂, hreads⟩ := hcrowded 1000
  exact ⟨_, hr, rfl, ⟨s', hs', hmem⟩, s₁, s₂, hs₁, hs₂, hreads⟩

end EmbeddedLinux.RwLock
