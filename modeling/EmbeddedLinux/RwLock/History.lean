import EmbeddedLinux.Lib.Interference
import EmbeddedLinux.Lib.Stdio
import Mathlib.Data.Finset.Erase
import Mathlib.Data.Finset.Insert
import Mathlib.Data.List.Range

/-!
# Readers and writers

Any number of `reader` and `writer` threads share `resource` under a read-write lock.  A writer adds
1 to it, which is a load, an addition and a store, and prints it, which is another load.
A reader loads it and prints what it has loaded.

What is printed is kept in `wrote` and `reads`, with two counts for each read, taken at its
`pthread_rwlock_rdlock`: of the write sections completed until then, and of the values readers had
printed until then.  These histories, `stores` and `sections` are read by no step.

No writer is in its section while a reader is in one, so `sections` stands still during
a read section, and `resource` is `sections` all the time (`outline`).
-/

namespace EmbeddedLinux.RwLock

open Interference Transition Stdio

inductive Role
  | reader
  | writer

/-- What had happened when a reader got the lock. -/
structure Began where
  sections : Nat
  reads : Nat

/-- A value that a reader has printed. -/
structure Read where
  began : Began
  value : Int

structure Memory (T : Type*) where
  resource : Int
  /-- who holds `rwlock` -/
  writer : Option T
  readers : Finset T
  /-- the stores to `resource` -/
  stores : Nat
  /-- the write sections completed -/
  sections : Nat
  wrote : List Int
  reads : List Read

/-- Where a thread is. -/
inductive Pc
  /-- `reader` -/
  | rdlock
  | rdload (b : Began)
  | rdprint (b : Began) (x : Int)
  | rdunlock
  | rdsleep
  /-- `writer` -/
  | wrlock
  | wrload
  | wrstore (x : Int)
  | wrreload
  | wrprint (x : Int)
  | wrunlock
  | wrsleep

variable {T : Type*} [DecidableEq T]

def step (t : T) (_ : Unit) (m : Memory T) : Pc → Option (Memory T × Pc)
  | .rdlock =>
    if m.writer = none then
      some ({ m with readers := insert t m.readers },
        .rdload { sections := m.sections, reads := m.reads.length })
    else none
  | .rdload b => some (m, .rdprint b m.resource)
  | .rdprint b x => some ({ m with reads := m.reads ++ [{ began := b, value := x }] }, .rdunlock)
  | .rdunlock => some ({ m with readers := m.readers.erase t }, .rdsleep)
  | .rdsleep => some (m, .rdlock)
  | .wrlock =>
    if m.writer = none ∧ m.readers = ∅ then some ({ m with writer := some t }, .wrload) else none
  | .wrload => some (m, .wrstore (wrapInt (m.resource + 1)))
  | .wrstore x => some ({ m with resource := x, stores := m.stores + 1 }, .wrreload)
  | .wrreload => some (m, .wrprint m.resource)
  | .wrprint x => some ({ m with wrote := m.wrote ++ [x] }, .wrunlock)
  | .wrunlock => some ({ m with writer := none, sections := m.sections + 1 }, .wrsleep)
  | .wrsleep => some (m, .wrlock)

def Role.start : Role → Pc
  | .reader => .rdlock
  | .writer => .wrlock

def initial (role : T → Role) : State T (Memory T) Pc where
  mem :=
    { resource := 0, writer := none, readers := ∅, stores := 0, sections := 0, wrote := [],
      reads := [] }
  pc t := (role t).start

/-! ### The invariant -/

/-- The `n`-th value of an `int` that starts at 0. -/
@[irreducible] def nth (n : Nat) : Int := wrapInt n

theorem nth_succ (n : Nat) : wrapInt (nth n + 1) = nth (n + 1) := by
  have hcast : ((n + 1 : Nat) : Int) = n + 1 := by omega
  unfold nth wrapInt
  rw [Int.bmod_add_bmod, hcast]

theorem nth_eq {n : Nat} (h : n < 2147483648) : nth n = n := by
  have hint : -2147483648 ≤ (n : Int) ∧ (n : Int) ≤ 2147483647 := by omega
  unfold nth wrapInt
  obtain ⟨h1, h2⟩ := hint
  rw [Int.bmod_eq_of_le] <;> omega

/-- The first values, in their order. -/
def firstValues (n : Nat) : List Int := (List.range n).map (fun i => nth (i + 1))

theorem firstValues_succ (n : Nat) : firstValues (n + 1) = firstValues n ++ [nth (n + 1)] := by
  rw [firstValues, List.range_succ, List.map_append]
  rfl

/-- There have been `stored` stores, and `printed` values have been printed. -/
def Written (m : Memory T) (stored printed : Nat) : Prop :=
  m.resource = nth stored ∧ m.stores = stored ∧ m.wrote = firstValues printed

/-- What was counted when a read began. -/
structure Past (n : Nat) (rs : List Read) (b : Began) : Prop where
  sections : b.sections ≤ n
  reads : b.reads ≤ rs.length
  older : ∀ r ∈ rs.take b.reads, r.began.sections ≤ b.sections

theorem length_firstValues (n : Nat) : (firstValues n).length = n := by
  rw [firstValues, List.length_map, List.length_range]

structure Inv (m : Memory T) : Prop where
  completed : m.sections ≤ m.stores
  printed : ∃ n ≤ m.stores, m.wrote = firstValues n
  excluded : m.writer ≠ none → m.readers = ∅
  settled : m.writer = none → Written m m.sections m.sections
  reads : ∀ r ∈ m.reads, Past m.sections m.reads r.began ∧ r.value = nth r.began.sections

/-- A thread in a read section, during which no write section is completed. -/
structure Reading (t : T) (b : Began) (m : Memory T) : Prop where
  mem : t ∈ m.readers
  past : Past m.sections m.reads b
  still : b.sections = m.sections

/-- A thread in a write section. -/
structure Writing (t : T) (stored printed : Nat) (m : Memory T) : Prop where
  owner : m.writer = some t
  written : Written m (m.sections + stored) (m.sections + printed)

def Assertion (t : T) (pc : Pc) (m : Memory T) : Prop :=
  match pc with
  | .rdload b => Reading t b m
  | .rdprint b x => Reading t b m ∧ x = nth b.sections
  | .rdunlock => t ∈ m.readers
  | .wrload => Writing t 0 0 m
  | .wrstore x => Writing t 0 0 m ∧ x = nth (m.sections + 1)
  | .wrreload => Writing t 1 0 m
  | .wrprint x => Writing t 1 0 m ∧ x = nth (m.sections + 1)
  | .wrunlock => Writing t 1 1 m
  | _ => True

/-! ### What a step leaves as it is -/

theorem Past.mono {n n' : Nat} {rs rs' : List Read} {b : Began} (h : Past n rs b)
    (hs : n ≤ n') (hr : rs <+: rs') : Past n' rs' b := by
  obtain ⟨more, rfl⟩ := hr
  refine ⟨le_trans h.sections hs, ?_, ?_⟩
  · rw [List.length_append]
    exact Nat.le_add_right_of_le h.reads
  · rw [List.take_append_of_le_length h.reads]
    exact h.older

variable {t u : T} {m m' : Memory T} {pc pc' : Pc}

/-- Nothing that is counted is taken back. -/
theorem step_mono (h : step t () m pc = some (m', pc')) :
    m.sections ≤ m'.sections ∧ m.reads <+: m'.reads := by
  cases pc <;> simp only [step] at h
  all_goals try split at h
  all_goals cases h
  all_goals first
    | exact ⟨Nat.le_refl _, List.prefix_rfl⟩
    | exact ⟨Nat.le_refl _, List.prefix_append _ _⟩
    | exact ⟨Nat.le_succ _, List.prefix_rfl⟩

omit [DecidableEq T] in
/-- While there are readers, no thread is in a write section. -/
theorem Inv.no_writer (hm : Inv m) (hu : u ∈ m.readers) : m.writer = none := by
  by_contra hw
  rw [hm.excluded hw] at hu
  cases hu

/-- The other readers stay, and no write section is completed meanwhile. -/
theorem step_readers (hm : Inv m) (ha : Assertion t pc m) (hne : u ≠ t)
    (h : step t () m pc = some (m', pc')) (hu : u ∈ m.readers) :
    u ∈ m'.readers ∧ m'.sections = m.sections := by
  have hnone := hm.no_writer hu
  cases pc with
  | rdlock =>
    simp only [step] at h
    split at h
    · cases h
      exact ⟨Finset.mem_insert_of_mem hu, rfl⟩
    · exact absurd hnone ‹_›
  | rdunlock =>
    cases h
    exact ⟨Finset.mem_erase.2 ⟨hne, hu⟩, rfl⟩
  | wrlock =>
    simp only [step] at h
    split at h
    · cases h
      exact ⟨hu, rfl⟩
    · cases h
  | wrunlock =>
    have hown : m.writer = some t := ha.owner
    rw [hnone] at hown
    cases hown
  | _ =>
    cases h
    exact ⟨hu, rfl⟩

/-- The thread in a write section is the only one that changes anything. -/
theorem step_writer (ha : Assertion t pc m) (hne : u ≠ t)
    (h : step t () m pc = some (m', pc')) (hu : m.writer = some u) :
    m'.writer = some u ∧ m'.resource = m.resource ∧ m'.stores = m.stores ∧
      m'.sections = m.sections ∧ m'.wrote = m.wrote := by
  have hne' : m.writer ≠ some t := by
    rw [hu]
    exact fun e => hne (Option.some_inj.1 e)
  cases pc with
  | rdlock =>
    simp only [step, hu] at h
    cases h
  | wrlock =>
    simp only [step, hu] at h
    cases h
  | wrstore x => exact absurd ha.1.owner hne'
  | wrprint x => exact absurd ha.1.owner hne'
  | wrunlock => exact absurd ha.owner hne'
  | _ =>
    cases h
    exact ⟨hu, rfl, rfl, rfl, rfl⟩

theorem Reading.frame (hm : Inv m) (ha : Assertion t pc m) (hne : u ≠ t)
    (h : step t () m pc = some (m', pc')) {b : Began} (hu : Reading u b m) : Reading u b m' := by
  obtain ⟨hmem, hsections⟩ := step_readers hm ha hne h hu.mem
  obtain ⟨hs, hr⟩ := step_mono h
  exact ⟨hmem, hu.past.mono hs hr, hu.still.trans hsections.symm⟩

theorem Writing.frame (ha : Assertion t pc m) (hne : u ≠ t)
    (h : step t () m pc = some (m', pc')) {stored printed : Nat}
    (hu : Writing u stored printed m) : Writing u stored printed m' ∧ m'.sections = m.sections := by
  obtain ⟨howner, hresource, hstores, hsections, hwrote⟩ := step_writer ha hne h hu.owner
  refine ⟨⟨howner, ?_⟩, hsections⟩
  rw [hsections]
  obtain ⟨h1, h2, h3⟩ := hu.written
  exact ⟨hresource.trans h1, hstores.trans h2, hwrote.trans h3⟩

/-! ### The steps keep the invariant -/

omit [DecidableEq T] in
theorem Inv.append (hm : Inv m) {b : Began} (hb : Past m.sections m.reads b) :
    Inv { m with reads := m.reads ++ [{ began := b, value := nth b.sections }] } := by
  refine ⟨hm.completed, hm.printed, hm.excluded, hm.settled, fun r hr => ?_⟩
  rcases List.mem_append.1 hr with hr | hr
  · obtain ⟨hpast, hval⟩ := hm.reads r hr
    exact ⟨hpast.mono (Nat.le_refl _) (List.prefix_append _ _), hval⟩
  · rw [List.mem_singleton] at hr
    subst hr
    exact ⟨hb.mono (Nat.le_refl _) (List.prefix_append _ _), rfl⟩

theorem step_own (hm : Inv m) (ha : Assertion t pc m) (h : step t () m pc = some (m', pc')) :
    Inv m' ∧ Assertion t pc' m' := by
  have hcompl := hm.completed
  have hprint := hm.printed
  have hexcl := hm.excluded
  have hset := hm.settled
  have hreads := hm.reads
  cases pc with
  | rdlock =>
    simp only [step] at h
    split at h
    · rename_i hnone
      cases h
      refine ⟨⟨hcompl, hprint, fun hw => absurd hnone hw, hset, hreads⟩, Finset.mem_insert_self _ _,
        ?_, rfl⟩
      refine ⟨Nat.le_refl _, Nat.le_refl _, fun r hr => ?_⟩
      exact (hreads r (List.mem_of_mem_take hr)).1.sections
    · cases h
  | rdload b =>
    cases h
    refine ⟨hm, ha, ?_⟩
    rw [(hset (hm.no_writer ha.mem)).1, ha.still]
  | rdprint b x =>
    obtain ⟨hr, rfl⟩ := ha
    cases h
    exact ⟨hm.append hr.past, hr.mem⟩
  | rdunlock =>
    cases h
    refine ⟨⟨hcompl, hprint, fun hw => ?_, hset, hreads⟩, trivial⟩
    show m.readers.erase t = ∅
    rw [hexcl hw]
    rfl
  | rdsleep | wrsleep =>
    cases h
    exact ⟨hm, trivial⟩
  | wrlock =>
    simp only [step] at h
    split at h
    · rename_i hfree
      cases h
      exact ⟨⟨hcompl, hprint, fun _ => hfree.2, fun hw => (by cases hw), hreads⟩, rfl, hset hfree.1⟩
    · cases h
  | wrload =>
    cases h
    refine ⟨hm, ha, ?_⟩
    rw [ha.written.1]
    exact nth_succ _
  | wrstore x =>
    obtain ⟨hw, rfl⟩ := ha
    cases h
    have hbusy : m.writer = none → False := fun e => by
      rw [hw.owner] at e
      cases e
    obtain ⟨n, hn, hwrote⟩ := hprint
    refine ⟨⟨Nat.le_succ_of_le hcompl, ⟨n, Nat.le_succ_of_le hn, hwrote⟩, hexcl,
      fun e => (hbusy e).elim, hreads⟩, hw.owner, rfl, ?_, hw.written.2.2⟩
    exact congrArg (· + 1) hw.written.2.1
  | wrreload =>
    cases h
    exact ⟨hm, ha, ha.written.1⟩
  | wrprint x =>
    obtain ⟨hw, rfl⟩ := ha
    cases h
    have hbusy : m.writer = none → False := fun e => by
      rw [hw.owner] at e
      cases e
    have hwrote : m.wrote ++ [nth (m.sections + 1)] = firstValues (m.sections + 1) := by
      rw [hw.written.2.2]
      exact (firstValues_succ _).symm
    refine ⟨⟨hcompl, ⟨m.sections + 1, Nat.le_of_eq hw.written.2.1.symm, hwrote⟩, hexcl,
      fun e => (hbusy e).elim, hreads⟩, hw.owner, hw.written.1, hw.written.2.1, hwrote⟩
  | wrunlock =>
    cases h
    obtain ⟨hown, hw⟩ := ha
    refine ⟨⟨Nat.le_of_eq hw.2.1.symm, hprint, fun e => absurd rfl e, fun _ => hw,
      fun r hr => ?_⟩, trivial⟩
    obtain ⟨hpast, hval⟩ := hreads r hr
    exact ⟨hpast.mono (Nat.le_succ _) List.prefix_rfl, hval⟩

/-- **The proof outline of the program.** -/
theorem outline : Outline (step (T := T)) (fun _ _ _ _ => True) Inv Assertion where
  own t e m pc m' pc' hm ha _ h := step_own hm ha h
  others t e m pc m' pc' u k hne hm ha hu _ h := by
    cases k with
    | rdload b => exact Reading.frame hm ha hne h hu
    | rdprint b x => exact ⟨Reading.frame hm ha hne h hu.1, hu.2⟩
    | rdunlock => exact (step_readers hm ha hne h hu).1
    | wrload => exact (Writing.frame ha hne h hu).1
    | wrstore x | wrprint x =>
      obtain ⟨hw, hs⟩ := Writing.frame ha hne h hu.1
      refine ⟨hw, ?_⟩
      rw [hs]
      exact hu.2
    | wrreload => exact (Writing.frame ha hne h hu).1
    | wrunlock => exact (Writing.frame ha hne h hu).1
    | _ => exact trivial

/-! ### The main result -/

omit [DecidableEq T] in
theorem holds_initial (role : T → Role) : Holds Inv Assertion (initial role) := by
  refine ⟨⟨Nat.le_refl _, ⟨0, Nat.le_refl _, rfl⟩, fun _ => rfl, fun _ => ⟨?_, rfl, rfl⟩,
    fun r hr => (by cases hr)⟩, fun t => ?_⟩
  · exact (nth_eq (by decide)).symm
  · show Assertion t (role t).start _
    cases role t <;> exact trivial

/-- **The histories.**  As long as there have been fewer than 2^31 writes, the writers have printed
1, 2, 3 and so on; a reader has printed the number of write sections completed before its own
section; and it is not below what readers had printed before that. -/
theorem histories {role : T → Role} {s : State T (Memory T) Pc}
    (hr : Reachable (next step) Any (initial role) s) (hlt : s.mem.stores < 2147483648) :
    s.mem.wrote = (List.range s.mem.wrote.length).map (fun i : Nat => (i : Int) + 1) ∧
      (∀ r ∈ s.mem.reads, r.value = r.began.sections) ∧
      ∀ (i j : Nat) (a b : Read), s.mem.reads[i]? = some a → s.mem.reads[j]? = some b →
        i < b.began.reads → a.value ≤ b.value := by
  obtain ⟨hm, -⟩ := outline.any (holds_initial role) hr
  have hvalue : ∀ r ∈ s.mem.reads, r.value = r.began.sections := by
    intro r hmem
    obtain ⟨hpast, hval⟩ := hm.reads r hmem
    have := hpast.sections
    have := hm.completed
    rw [hval, nth_eq (by omega)]
  refine ⟨?_, hvalue, ?_⟩
  · obtain ⟨n, hn, hwrote⟩ := hm.printed
    rw [hwrote, length_firstValues, firstValues]
    refine List.map_congr_left (fun i hi => ?_)
    rw [List.mem_range] at hi
    rw [nth_eq (by omega)]
    rfl
  · intro i j a b ha hb hi
    have hbmem := List.mem_of_getElem? hb
    have hamem := List.mem_of_getElem? ha
    have htake : a ∈ s.mem.reads.take b.began.reads := by
      refine List.mem_of_getElem? (i := i) ?_
      rw [List.getElem?_take_of_lt hi]
      exact ha
    have hle := (hm.reads b hbmem).1.older a htake
    rw [hvalue a hamem, hvalue b hbmem]
    omega

/-- Two writers and a reader between them. -/
theorem histories_three : ∃ s, Reachable (next step) Any (initial (fun t : Fin 3 =>
      if t = 2 then Role.reader else Role.writer)) s ∧ s.mem.wrote = [1, 2] ∧
    (s.mem.reads.map Read.value = [1]) ∧
      s.mem.wrote = (List.range s.mem.wrote.length).map (fun i : Nat => (i : Int) + 1) := by
  let thread := fun (t : Fin 3) n => List.replicate n (t, ())
  have hr : Reachable (next step) Any (initial (fun t : Fin 3 =>
      if t = 2 then Role.reader else Role.writer)) _ :=
    ⟨thread 0 6 ++ thread 2 4 ++ thread 1 6, exec_run rfl⟩
  exact ⟨_, hr, rfl, rfl, (histories hr (by decide)).1⟩

end EmbeddedLinux.RwLock
