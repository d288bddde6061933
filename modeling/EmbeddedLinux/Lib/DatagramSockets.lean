import Mathlib.Data.List.Nodup
import Mathlib.Data.List.Perm.Basic
import Mathlib.Logic.Function.Basic

/-!
# Datagram sockets with names

A socket is bound to a name, and a message that is sent to the name is queued at the socket that has
the name at that moment.  A name may be taken away from its socket, and it stays when the socket is
closed; then nothing can be sent to it any more.  When a socket is closed the messages queued at it
are dropped.

Each message is from the socket that has sent it.  The histories of the messages sent, received and
dropped are read by no operation; no message is in two of the places it can be in, or in none
(`Accounted`).
-/

namespace DatagramSockets

structure Net (P T : Type*) where
  name : P → Option T
  closed : T → Bool
  /-- the messages that wait, each with the socket it waits at and the one it is from -/
  queue : List (T × T)
  sent : List T
  received : List T
  dropped : List T

variable {P T : Type*}

def Net.empty : Net P T :=
  { name := fun _ => none, closed := fun _ => false, queue := [], sent := [], received := []
    dropped := [] }

variable [DecidableEq P] [DecidableEq T]

namespace Net

/-- The name is nobody's. -/
def unlink (m : Net P T) (p : P) : Net P T := { m with name := Function.update m.name p none }

/-- It fails when the name is there. -/
def bind (m : Net P T) (p : P) (t : T) : Option (Net P T) :=
  if m.name p = none then some { m with name := Function.update m.name p (some t) } else none

/-- It fails when the name is not there, or its socket has been closed. -/
def sendto (m : Net P T) (p : P) (t : T) : Option (Net P T) :=
  match m.name p with
  | some u =>
    if m.closed u then none else some { m with queue := m.queue ++ [(u, t)], sent := m.sent ++ [t] }
  | none => none

/-- The first message that waits at `t`, and whom it is from. -/
def recvfrom (m : Net P T) (t : T) : Option (Net P T × T) :=
  (m.queue.find? (fun x => decide (x.1 = t))).map (fun x =>
    ({ m with
        queue := m.queue.eraseP (fun x => decide (x.1 = t)), received := m.received ++ [x.2] },
      x.2))

/-- The messages that wait at `t`. -/
def waiting (m : Net P T) (t : T) : List (T × T) := m.queue.filter (fun x => decide (x.1 = t))

def close (m : Net P T) (t : T) : Net P T :=
  { m with
    closed := Function.update m.closed t true
    queue := m.queue.filter (fun x => !decide (x.1 = t))
    dropped := m.dropped ++ (m.waiting t).map Prod.snd }

end Net

/-- The element that is found is the one that is erased. -/
theorem perm_of_find? {α : Type*} {p : α → Bool} {l : List α} {x : α} (h : l.find? p = some x) :
    (x :: l.eraseP p).Perm l := by
  induction l with
  | nil => cases h
  | cons y l ih =>
    by_cases hy : p y = true
    · rw [List.find?_cons_of_pos hy] at h
      cases h
      rw [List.eraseP_cons_of_pos hy]
    · rw [List.find?_cons_of_neg hy] at h
      rw [List.eraseP_cons_of_neg hy]
      exact (List.Perm.swap y x _).trans ((ih h).cons y)

omit [DecidableEq T] in
/-- The names that are left when one has been taken away. -/
theorem Net.name_of_unlink {m : Net P T} {p q : P} {t : T} (h : (m.unlink p).name q = some t) :
    q ≠ p ∧ m.name q = some t := by
  by_cases hq : q = p
  · subst hq
    cases (Function.update_self ..).symm.trans h
  · exact ⟨hq, (Function.update_of_ne hq ..).symm.trans h⟩

/-- **No message is lost or doubled.** -/
structure Accounted (m : Net P T) : Prop where
  sum : m.sent.Perm (m.queue.map Prod.snd ++ (m.received ++ m.dropped))
  nodup : m.sent.Nodup
  /-- nothing waits at a socket that has been closed -/
  live : ∀ x ∈ m.queue, m.closed x.1 = false

variable {m m' : Net P T} {p : P} {t u : T}

omit [DecidableEq P] [DecidableEq T] in
theorem accounted_empty : Accounted (Net.empty : Net P T) :=
  ⟨.nil, .nil, fun _ hx => (by cases hx)⟩

namespace Accounted

omit [DecidableEq T] in
theorem unlink (h : Accounted m) (p : P) : Accounted (m.unlink p) := ⟨h.sum, h.nodup, h.live⟩

omit [DecidableEq T] in
theorem bind (h : Accounted m) (hb : m.bind p t = some m') :
    Accounted m' ∧ m.name p = none ∧ m' = { m with name := Function.update m.name p (some t) } := by
  unfold Net.bind at hb
  split at hb
  · rename_i hnone
    cases hb
    exact ⟨⟨h.sum, h.nodup, h.live⟩, hnone, rfl⟩
  · cases hb

omit [DecidableEq P] [DecidableEq T] in
/-- A message is sent, by a socket that has sent none. -/
theorem sendto (h : Accounted m) (hs : m.sendto p t = some m') (ht : t ∉ m.sent) :
    Accounted m' ∧ ∃ u, m.name p = some u ∧ m.closed u = false ∧
      m' = { m with queue := m.queue ++ [(u, t)], sent := m.sent ++ [t] } := by
  unfold Net.sendto at hs
  split at hs
  · rename_i u hu
    split at hs
    · cases hs
    · rename_i hopen
      cases hs
      have hopen' : m.closed u = false := by simpa using hopen
      refine ⟨⟨?_, ?_, fun x hx => ?_⟩, u, hu, hopen', rfl⟩
      · show (m.sent ++ [t]).Perm ((m.queue ++ [(u, t)]).map Prod.snd ++ _)
        rw [List.map_append, List.append_assoc]
        refine (h.sum.append_right [t]).trans ?_
        rw [List.append_assoc]
        exact List.perm_append_comm.append_left _
      · exact List.nodup_append.2 ⟨h.nodup, List.nodup_singleton t, fun a ha b hb => by
          rw [List.mem_singleton] at hb
          rintro rfl
          exact ht (hb ▸ ha)⟩
      · obtain hx | hx := List.mem_append.1 hx
        · exact h.live x hx
        · rw [List.mem_singleton] at hx
          rw [hx]
          exact hopen'
  · cases hs

omit [DecidableEq P] in
theorem recvfrom (h : Accounted m) (hr : m.recvfrom t = some (m', u)) :
    Accounted m' ∧ (t, u) ∈ m.queue ∧ m'.name = m.name ∧ m'.closed = m.closed ∧ m'.sent = m.sent ∧
      m'.received = m.received ++ [u] ∧ ∀ x ∈ m'.queue, x ∈ m.queue := by
  unfold Net.recvfrom at hr
  obtain ⟨x, hx, hr⟩ := Option.map_eq_some_iff.1 hr
  cases hr
  have hmem := List.mem_of_find?_eq_some hx
  have hxt : x.1 = t := by simpa using List.find?_some hx
  have hfirst := (perm_of_find? hx).symm.map Prod.snd
  have hsub : ∀ y ∈ m.queue.eraseP (fun x => decide (x.1 = t)), y ∈ m.queue :=
    fun y hy => List.mem_of_mem_eraseP hy
  refine ⟨⟨?_, h.nodup, fun y hy => h.live y (hsub y hy)⟩, ?_, rfl, rfl, rfl, rfl, hsub⟩
  · show m.sent.Perm ((m.queue.eraseP _).map Prod.snd ++ ((m.received ++ [x.2]) ++ m.dropped))
    refine (h.sum.trans (hfirst.append_right _)).trans ?_
    rw [List.append_assoc, List.map_cons, List.cons_append]
    refine List.perm_middle.symm.trans (List.Perm.append_left _ ?_)
    exact List.perm_middle.symm
  · rw [← hxt]
    exact hmem

omit [DecidableEq P] in
/-- What waits at the socket is dropped. -/
theorem close (h : Accounted m) (t : T) : Accounted (m.close t) := by
  have hsplit := (List.filter_append_perm (fun x : T × T => decide (x.1 = t)) m.queue).symm.map
    Prod.snd
  refine ⟨?_, h.nodup, fun x hx => ?_⟩
  · show m.sent.Perm ((m.queue.filter _).map Prod.snd ++
      (m.received ++ (m.dropped ++ (m.waiting t).map Prod.snd)))
    refine (h.sum.trans (hsplit.append_right _)).trans ?_
    rw [List.map_append, Net.waiting]
    generalize (m.queue.filter fun x => decide (x.1 = t)).map Prod.snd = a
    generalize (m.queue.filter fun x => !decide (x.1 = t)).map Prod.snd = b
    have hcomm :
        (a ++ b ++ (m.received ++ m.dropped)).Perm (b ++ (m.received ++ m.dropped) ++ a) := by
      rw [List.append_assoc]
      exact List.perm_append_comm
    simpa only [List.append_assoc] using hcomm
  · obtain ⟨hmem, hne⟩ := List.mem_filter.1 hx
    have hxt : x.1 ≠ t := by simpa using hne
    show Function.update m.closed t true x.1 = false
    rw [Function.update_of_ne hxt]
    exact h.live x hmem

end Accounted

end DatagramSockets
