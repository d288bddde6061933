import Mathlib.Data.List.Basic
import Mathlib.Logic.Function.Basic

/-!
# Descriptor tables

A process has a table of `limit` descriptors.  Some of them are open, each on a file, and several
may be open on the same file.  `pipe` takes the two lowest free ones; `dup2` and `close` change one.

What a call leaves in the table is told by one lemma for each call: `close_file`, `dup2_file` and
`pipe_eq_some`.
-/

namespace Descriptors

variable {F G : Type*} {limit : Nat}

structure Table (F : Type*) (limit : Nat) where
  file : Nat → Option F
  closed : ∀ n, limit ≤ n → file n = none

namespace Table

/-- `close(fd)`, which changes nothing if `fd` is not open. -/
def close (t : Table F limit) (fd : Nat) : Table F limit where
  file := Function.update t.file fd none
  closed n hn := by
    rw [Function.update_apply]
    split
    · rfl
    · exact t.closed n hn

/-- The free descriptor `fd` is opened on `f`. -/
def put (t : Table F limit) (fd : Nat) (f : F) : Table F limit where
  file n := if n = fd ∧ fd < limit then some f else t.file n
  closed n hn := by
    rw [if_neg (by omega)]
    exact t.closed n hn

/-- `dup2(old, new)`, which changes nothing if `old` is not open or `new` is too large. -/
def dup2 (t : Table F limit) (old new : Nat) : Table F limit :=
  match t.file old with
  | some f => t.put new f
  | none => t

/-- The lowest free descriptor. -/
def lowest (t : Table F limit) : Option Nat :=
  (List.range limit).find? (fun n => (t.file n).isNone)

/-- `pipe`, with the ends `r` and `w`: the two descriptors and the table with them. -/
def pipe (t : Table F limit) (r w : F) : Option (Nat × Nat × Table F limit) :=
  match t.lowest with
  | none => none
  | some fd0 =>
    match (t.put fd0 r).lowest with
    | none => none
    | some fd1 => some (fd0, fd1, (t.put fd0 r).put fd1 w)

/-- The table with other names for the files. -/
def map (g : F → G) (t : Table F limit) : Table G limit where
  file n := (t.file n).map g
  closed n hn := by rw [t.closed n hn]; rfl

/-- Some descriptor is open on `f`. -/
def Has (t : Table F limit) (f : F) : Prop := ∃ n < limit, t.file n = some f

instance [DecidableEq F] (t : Table F limit) (f : F) : Decidable (t.Has f) :=
  inferInstanceAs (Decidable (∃ n < limit, t.file n = some f))

variable {t u : Table F limit} {r w : F} {a b n : Nat}

theorem has_of_file {f : F} (h : t.file n = some f) : t.Has f := by
  refine ⟨n, ?_, h⟩
  by_contra hle
  rw [t.closed n (by omega)] at h
  cases h

theorem close_file (t : Table F limit) (fd n : Nat) :
    (t.close fd).file n = if n = fd then none else t.file n :=
  Function.update_apply ..

theorem put_file (t : Table F limit) (f : F) {fd : Nat} (h : fd < limit) (n : Nat) :
    (t.put fd f).file n = if n = fd then some f else t.file n := by
  simp only [put, and_iff_left h]

theorem dup2_file {f : F} {old new : Nat} (hold : t.file old = some f) (hnew : new < limit)
    (n : Nat) : (t.dup2 old new).file n = if n = new then some f else t.file n := by
  rw [dup2, hold]
  exact put_file t f hnew n

/-- A `close` opens nothing. -/
theorem Has.of_close {f : F} {fd : Nat} (h : (t.close fd).Has f) : t.Has f := by
  obtain ⟨n, -, hn⟩ := h
  rw [close_file] at hn
  split at hn
  · cases hn
  · exact has_of_file hn

/-- A `dup2` opens only what is open. -/
theorem Has.of_dup2 {f : F} {old new : Nat} (h : (t.dup2 old new).Has f) : t.Has f := by
  obtain ⟨n, -, hn⟩ := h
  unfold dup2 at hn
  split at hn
  · rename_i g hg
    change (if n = new ∧ new < limit then some g else t.file n) = some f at hn
    split at hn
    · cases hn
      exact has_of_file hg
    · exact has_of_file hn
  · exact has_of_file hn

theorem lowest_eq_some_iff :
    t.lowest = some n ↔ n < limit ∧ t.file n = none ∧ ∀ m < n, t.file m ≠ none := by
  rw [lowest, List.find?_range_eq_some]
  simp only [List.mem_range, Option.isNone_iff_eq_none, Bool.not_eq_true',
    Option.isNone_eq_false_iff, Option.isSome_iff_ne_none]
  constructor
  · rintro ⟨hfree, hlt, hlow⟩
    exact ⟨hlt, hfree, hlow⟩
  · rintro ⟨hlt, hfree, hlow⟩
    exact ⟨hfree, hlt, hlow⟩

theorem lowest_eq_none_iff : t.lowest = none ↔ ∀ n < limit, t.file n ≠ none := by
  rw [lowest, List.find?_eq_none]
  simp only [List.mem_range, Option.isNone_iff_eq_none]

/-- **What `pipe` does.** -/
theorem pipe_eq_some (h : t.pipe r w = some (a, b, u)) :
    a < b ∧ b < limit ∧ t.file a = none ∧ t.file b = none ∧
      (∀ m < b, m ≠ a → t.file m ≠ none) ∧
      ∀ n, u.file n = if n = b then some w else if n = a then some r else t.file n := by
  unfold pipe at h
  split at h
  · cases h
  · rename_i fd0 hfd0
    split at h
    · cases h
    · rename_i fd1 hfd1
      cases h
      obtain ⟨ha, hfree, hlow⟩ := lowest_eq_some_iff.1 hfd0
      obtain ⟨hb, hfree', hlow'⟩ := lowest_eq_some_iff.1 hfd1
      simp only [put_file t r ha] at hfree' hlow'
      have hne : b ≠ a := by
        rintro rfl
        rw [if_pos rfl] at hfree'
        cases hfree'
      rw [if_neg hne] at hfree'
      refine ⟨?_, hb, hfree, hfree', fun m hm hma => ?_, fun n => ?_⟩
      · by_contra hle
        exact hlow b (by omega) hfree'
      · have := hlow' m hm
        rwa [if_neg hma] at this
      · rw [put_file _ w hb, put_file t r ha]

/-- `pipe` fails only if there are not two free descriptors. -/
theorem pipe_eq_none_iff :
    t.pipe r w = none ↔ ∀ a b, a < b → b < limit → t.file a = none → t.file b ≠ none := by
  constructor
  · intro h a b hab hb hfreea hfreeb
    unfold pipe at h
    split at h
    · rename_i hnone
      exact lowest_eq_none_iff.1 hnone b hb hfreeb
    · rename_i fd0 hfd0
      obtain ⟨hlt, -, hlow⟩ := lowest_eq_some_iff.1 hfd0
      have hle : fd0 ≤ a := by
        by_contra hle
        exact hlow a (by omega) hfreea
      split at h
      · rename_i hnone
        refine lowest_eq_none_iff.1 hnone b hb ?_
        rw [put_file t r hlt, if_neg (by omega)]
        exact hfreeb
      · cases h
  · intro h
    by_contra hne
    obtain ⟨⟨a, b, u⟩, hp⟩ := Option.ne_none_iff_exists'.1 hne
    obtain ⟨hab, hb, hfreea, hfreeb, -⟩ := pipe_eq_some hp
    exact h a b hab hb hfreea hfreeb

end Table

end Descriptors
