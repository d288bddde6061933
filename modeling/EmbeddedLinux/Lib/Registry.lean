import Mathlib.Data.List.Basic

/-!
# What is registered

A `Book` says which resources are registered, and keeps the list of all registrations and
removals so far.  A piece of code that registers some resources and takes them back when
it fails, or hands them to another piece that does, is a composition of `acquireAll` and
`releaseAll`; what it has done is read off the entries since its start.
-/

namespace Registry

/-- A registration or a removal. -/
inductive Entry (R : Type*)
  | acquired (r : R)
  | released (r : R)

structure Book (R : Type*) where
  held : R → Bool
  log : List (Entry R)

variable {R : Type*}

def Entry.acquired? : Entry R → Option R
  | acquired r => some r
  | released _ => none

def Entry.released? : Entry R → Option R
  | acquired _ => none
  | released r => some r

namespace Book

/-- The resources registered since the book was `b`. -/
def acquiredSince (b b' : Book R) : List R :=
  (b'.log.drop b.log.length).filterMap Entry.acquired?

/-- The resources removed since the book was `b`. -/
def releasedSince (b b' : Book R) : List R :=
  (b'.log.drop b.log.length).filterMap Entry.released?

variable [DecidableEq R]

def acquire (b : Book R) (r : R) : Book R :=
  { held := Function.update b.held r true, log := b.log ++ [.acquired r] }

/-- A removal has an entry also when nothing was registered. -/
def release (b : Book R) (r : R) : Book R :=
  { held := Function.update b.held r false, log := b.log ++ [.released r] }

def acquireAll (b : Book R) (rs : List R) : Book R := rs.foldl acquire b

def releaseAll (b : Book R) (rs : List R) : Book R := rs.foldl release b

theorem acquireAll_cons (b : Book R) (r : R) (rs : List R) :
    b.acquireAll (r :: rs) = (b.acquire r).acquireAll rs := rfl

theorem releaseAll_cons (b : Book R) (r : R) (rs : List R) :
    b.releaseAll (r :: rs) = (b.release r).releaseAll rs := rfl

theorem releaseAll_append (b : Book R) (rs rs' : List R) :
    b.releaseAll (rs ++ rs') = (b.releaseAll rs).releaseAll rs' := List.foldl_append

/-- After some registrations. -/
theorem held_acquireAll {b : Book R} {rs : List R} {r : R} :
    (b.acquireAll rs).held r = true ↔ r ∈ rs ∨ b.held r = true := by
  induction rs generalizing b with
  | nil => simp [acquireAll]
  | cons x rs ih =>
    rw [acquireAll_cons, ih, List.mem_cons, acquire]
    simp only [Function.update_apply]
    by_cases h : r = x <;> simp [h]

/-- After some removals. -/
theorem held_releaseAll {b : Book R} {rs : List R} {r : R} :
    (b.releaseAll rs).held r = true ↔ r ∉ rs ∧ b.held r = true := by
  induction rs generalizing b with
  | nil => simp [releaseAll]
  | cons x rs ih =>
    rw [releaseAll_cons, ih, List.mem_cons, release]
    simp only [Function.update_apply]
    by_cases h : r = x <;> simp [h]

theorem log_acquireAll (b : Book R) (rs : List R) :
    (b.acquireAll rs).log = b.log ++ rs.map .acquired := by
  induction rs generalizing b with
  | nil => simp [acquireAll]
  | cons x rs ih => rw [acquireAll_cons, ih, acquire, List.append_assoc]; rfl

theorem log_releaseAll (b : Book R) (rs : List R) :
    (b.releaseAll rs).log = b.log ++ rs.map .released := by
  induction rs generalizing b with
  | nil => simp [releaseAll]
  | cons x rs ih => rw [releaseAll_cons, ih, release, List.append_assoc]; rfl

theorem acquiredSince_acquireAll (b : Book R) (rs : List R) :
    acquiredSince b (b.acquireAll rs) = rs := by
  rw [acquiredSince, log_acquireAll, List.drop_left, List.filterMap_map]
  exact List.filterMap_some

theorem releasedSince_releaseAll (b : Book R) (rs : List R) :
    releasedSince b (b.releaseAll rs) = rs := by
  rw [releasedSince, log_releaseAll, List.drop_left, List.filterMap_map]
  exact List.filterMap_some

/-- **What is taken back in the end is not registered, and nothing else has changed.** -/
theorem held_undo {b : Book R} {rs rs' : List R} (h : ∀ r, r ∈ rs' ↔ r ∈ rs) {r : R} :
    ((b.acquireAll rs).releaseAll rs').held r = true ↔ r ∉ rs ∧ b.held r = true := by
  rw [held_releaseAll, held_acquireAll, h]
  tauto

end Book

/-! ### The order of the removals -/

/-- What is registered after some entries, the last first.  Nothing is registered twice, and what is
removed is what was registered last. -/
def replay [DecidableEq R] : List R → List (Entry R) → Option (List R)
  | st, [] => some st
  | st, .acquired r :: es => if r ∈ st then none else replay (r :: st) es
  | [], .released _ :: _ => none
  | r' :: st, .released r :: es => if r' = r then replay st es else none

theorem replay_append [DecidableEq R] (st : List R) (es es' : List (Entry R)) :
    replay st (es ++ es') = (replay st es).bind (fun st' => replay st' es') := by
  induction es generalizing st with
  | nil => rfl
  | cons e es ih =>
    cases e with
    | acquired r =>
      rw [List.cons_append, replay, replay]
      split
      · rfl
      · exact ih (r :: st)
    | released r =>
      cases st with
      | nil => rfl
      | cons r' st =>
        rw [List.cons_append, replay, replay]
        split
        · exact ih st
        · rfl

namespace Book

variable [DecidableEq R]

/-- Nothing has been registered yet. -/
def blank : Book R := { held := fun _ => false, log := [] }

/-- The entries of the book are in order, and `st` is registered, the last first. -/
structure Stacked (b : Book R) (st : List R) : Prop where
  replayed : replay [] b.log = some st
  held : ∀ r, b.held r = true ↔ r ∈ st
  nodup : st.Nodup

variable {b : Book R} {st : List R} {r : R}

theorem stacked_blank : (blank : Book R).Stacked [] :=
  ⟨rfl, fun _ => by simp [blank], List.nodup_nil⟩

theorem Stacked.acquire (h : b.Stacked st) (hr : r ∉ st) : (b.acquire r).Stacked (r :: st) := by
  refine ⟨?_, fun x => ?_, List.nodup_cons.2 ⟨hr, h.nodup⟩⟩
  · rw [Book.acquire, replay_append, h.replayed, Option.bind_some, replay, if_neg hr]
    rfl
  · rw [Book.acquire, List.mem_cons, ← h.held x]
    simp only [Function.update_apply]
    by_cases hx : x = r <;> simp [hx]

theorem Stacked.release (h : b.Stacked (r :: st)) : (b.release r).Stacked st := by
  obtain ⟨hnot, hnodup⟩ := List.nodup_cons.1 h.nodup
  refine ⟨?_, fun x => ?_, hnodup⟩
  · rw [Book.release, replay_append, h.replayed, Option.bind_some, replay, if_pos rfl]
    rfl
  · have hx := h.held x
    rw [List.mem_cons] at hx
    rw [Book.release]
    simp only [Function.update_apply]
    by_cases hxr : x = r
    · subst hxr
      simp [hnot]
    · rw [if_neg hxr, hx, or_iff_right hxr]

theorem Stacked.releaseAll (rs : List R) (h : b.Stacked (rs ++ st)) :
    (b.releaseAll rs).Stacked st := by
  induction rs generalizing b with
  | nil => exact h
  | cons r rs ih =>
    rw [releaseAll_cons]
    exact ih h.release

/-- Registers one resource after the other, where the call for a resource returns an error, and 0
when it succeeds.  When a call fails, what has been registered (`done`, the last first) is
removed. -/
def tryAll (b : Book R) (done : List R) : List (R × Int) → Int × Book R
  | [] => (0, b)
  | (r, err) :: calls =>
    if err ≠ 0 then (err, b.releaseAll done) else (b.acquire r).tryAll (r :: done) calls

/-- **All or nothing.** -/
theorem Stacked.tryAll (done : List R) {calls : List (R × Int)} (h : b.Stacked (done ++ st))
    (hnodup : (calls.map Prod.fst).Nodup) (hnew : ∀ r ∈ calls.map Prod.fst, r ∉ done ++ st) :
    (b.tryAll done calls).2.Stacked (if (b.tryAll done calls).1 = 0 then
      (calls.map Prod.fst).reverse ++ (done ++ st) else st) := by
  induction calls generalizing b done with
  | nil => exact h
  | cons call calls ih =>
    obtain ⟨r, err⟩ := call
    obtain ⟨hr, hrest⟩ := List.nodup_cons.1 hnodup
    rw [Book.tryAll]
    split
    · exact h.releaseAll done
    · rw [List.map_cons, List.reverse_cons, List.append_assoc]
      refine ih (r :: done) (h.acquire (hnew r List.mem_cons_self)) hrest ?_
      intro x hx hmem
      rcases List.mem_cons.1 hmem with rfl | hmem
      · exact hr hx
      · exact hnew x (List.mem_cons_of_mem r hx) hmem

end Book

end Registry
