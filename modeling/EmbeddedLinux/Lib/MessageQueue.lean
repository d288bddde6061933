import Mathlib.Data.List.Sort

/-!
# Message queues with priorities

What a POSIX message queue holds, in the order in which it is received: a message is
put behind all those of its own or a higher priority, and the first one is taken.  The
messages are of any type with a priority.
-/

namespace MessageQueue

variable {α : Type*} (prio : α → Nat)

/-- The queue after `mq_send`. -/
def send (q : List α) (m : α) : List α := q.orderedInsert (fun a b => prio b < prio a) m

variable {prio} {q : List α} {m : α}

theorem perm_send : (send prio q m).Perm (m :: q) := List.perm_orderedInsert _ _ _

@[simp] theorem mem_send {x : α} : x ∈ send prio q m ↔ x = m ∨ x ∈ q :=
  List.mem_orderedInsert _

theorem countP_send (p : α → Bool) :
    (send prio q m).countP p = q.countP p + if p m then 1 else 0 := by
  rw [perm_send.countP_eq, List.countP_cons]

/-- In the order of reception no message is behind one of a lower priority. -/
def Ordered (prio : α → Nat) (q : List α) : Prop := q.Pairwise (fun a b => prio b ≤ prio a)

theorem ordered_nil : Ordered prio ([] : List α) := List.Pairwise.nil

theorem Ordered.tail (h : Ordered prio (m :: q)) : Ordered prio q := h.of_cons

theorem Ordered.send (h : Ordered prio q) : Ordered prio (send prio q m) := by
  induction q with
  | nil => exact List.pairwise_singleton _ m
  | cons x q ih =>
    obtain ⟨hx, hq⟩ := List.pairwise_cons.mp h
    rw [MessageQueue.send, List.orderedInsert_cons]
    split
    · rename_i hlt
      refine List.pairwise_cons.mpr ⟨fun y hy => ?_, h⟩
      rcases List.mem_cons.mp hy with rfl | hy
      · exact hlt.le
      · exact (hx y hy).trans hlt.le
    · rename_i hlt
      refine List.pairwise_cons.mpr ⟨fun y hy => ?_, ih hq⟩
      rcases mem_send.mp hy with rfl | hy
      · exact Nat.le_of_not_lt hlt
      · exact hx y hy

/-- **The message that is received has the highest priority.** -/
theorem Ordered.head (h : Ordered prio (m :: q)) {x : α} (hx : x ∈ m :: q) :
    prio x ≤ prio m := by
  rcases List.mem_cons.mp hx with rfl | hx
  · exact le_rfl
  · exact (List.pairwise_cons.mp h).1 x hx

/-- **Messages of one priority stay in the order in which they are sent.** -/
theorem Ordered.filter_send (h : Ordered prio q) (p : Nat) :
    (MessageQueue.send prio q m).filter (fun x => prio x == p) =
      q.filter (fun x => prio x == p) ++ [m].filter (fun x => prio x == p) := by
  induction q with
  | nil => rfl
  | cons x q ih =>
    rw [MessageQueue.send, List.orderedInsert_cons]
    split
    · rename_i hlt
      have hcons : (m :: x :: q).filter (fun y => prio y == p) =
          [m].filter (fun y => prio y == p) ++ (x :: q).filter (fun y => prio y == p) :=
        List.filter_append [m] (x :: q)
      rw [hcons]
      by_cases hm : prio m = p
      · -- nothing of the priority of the new message is behind it
        have hnone : (x :: q).filter (fun y => prio y == p) = [] := by
          rw [List.filter_eq_nil_iff]
          intro y hy
          have hyx := h.head hy
          rw [beq_iff_eq]
          omega
        rw [hnone, List.nil_append, List.append_nil]
      · have hnone : [m].filter (fun y => prio y == p) = [] := by simpa using hm
        rw [hnone, List.nil_append, List.append_nil]
    · rw [List.filter_cons, List.filter_cons]
      split
      · rw [List.cons_append]
        exact congrArg (x :: ·) (ih h.tail)
      · exact ih h.tail

end MessageQueue
