import EmbeddedLinux.TaskQueue.Queue

/-!
# The order of the tasks

The steps of `TaskQueue.Queue`, and beside them the interrupts: a worker in its receive loop that
gets `SIGINT` closes its queue, takes the name away from whatever queue has it, and ends; one that
has not installed `cleanup` yet just ends.  A worker that has ended may be started again.

`sent` and `taken` are read by no step: what has been sent to each queue, and what has been received
from it.  From each queue the tasks of one priority are received in the order in which they were
sent, whatever dispatchers and workers there are (`received_in_order`).
-/

namespace EmbeddedLinux.TaskQueue

open Transition

structure Traced where
  base : State
  sent : QueueId → List Message
  taken : QueueId → List Message

inductive Event
  | act (a : Action)
  /-- `SIGINT` is sent to a worker, and `cleanup` is called or not -/
  | interrupt (w : WorkerId) (cleanup : Bool)

/-- What a step sends or receives. -/
def record (s : Traced) (a : Action) (t : State) : Traced :=
  match a with
  | .send d =>
    match s.base.dispatcher d, t.dispatcher d with
    | .sending q, .printing _ =>
      let m : Message := { s.base.task d with sender := d }
      { s with base := t, sent := Function.update s.sent q (s.sent q ++ [m]) }
    | _, _ => { s with base := t }
  | .receive w =>
    match s.base.worker w with
    | .receiving q =>
      let ms := (s.base.queues q).take 1
      { s with base := t, taken := Function.update s.taken q (s.taken q ++ ms) }
    | _ => { s with base := t }
  | _ => { s with base := t }

/-- `SIGINT` -/
def interrupt (s : State) (w : WorkerId) (cleanup : Bool) : Option State :=
  match s.worker w with
  | .receiving _ =>
    some { s.setWorker w .absent with name := if cleanup then none else s.name }
  | .unlinking | .creating => if cleanup then none else some (s.setWorker w .absent)
  | .absent | .failed => none

def tracedStep (s : Traced) : Event → Option Traced
  | .act a => (step s.base a).map (record s a)
  | .interrupt w cleanup => (interrupt s.base w cleanup).map (fun t => { s with base := t })

def tracedInitial : Traced := { base := initial, sent := fun _ => [], taken := fun _ => [] }

/-! ### The invariant -/

/-- The messages of one priority. -/
def ofPrio (p : Nat) (ms : List Message) : List Message := ms.filter (fun m => m.priority == p)

theorem ofPrio_append (p : Nat) (ms ms' : List Message) :
    ofPrio p (ms ++ ms') = ofPrio p ms ++ ofPrio p ms' := List.filter_append ..

structure InOrder (s : Traced) : Prop where
  sound : Sound s.base
  ordered : ∀ q, MessageQueue.Ordered Message.priority (s.base.queues q)
  fifo : ∀ q p, ofPrio p (s.taken q) ++ ofPrio p (s.base.queues q) = ofPrio p (s.sent q)

variable {s t : Traced}

theorem InOrder.initial : InOrder tracedInitial :=
  ⟨sound_initial, fun _ => MessageQueue.ordered_nil, fun _ _ => rfl⟩

/-- A step that neither sends nor receives. -/
theorem InOrder.congr (h : InOrder s) {b : State} (hb : Sound b) (hq : b.queues = s.base.queues) :
    InOrder { s with base := b } := by
  refine ⟨hb, ?_, ?_⟩
  · show ∀ q, MessageQueue.Ordered Message.priority (b.queues q)
    rw [hq]
    exact h.ordered
  · show ∀ q p, ofPrio p (s.taken q) ++ ofPrio p (b.queues q) = _
    rw [hq]
    exact h.fifo

/-- Only `mq_send` and `mq_receive` change what is in the queues. -/
theorem queues_step {b c : State} {a : Action} (hn : step b a = some c)
    (hsend : ∀ d, a ≠ .send d) (hreceive : ∀ w, a ≠ .receive w) : c.queues = b.queues := by
  cases a with
  | dispatch prio task =>
    cases hn
    rfl
  | openName d =>
    simp only [step] at hn
    split at hn
    · split at hn
      · cases hn
        rfl
      · cases hn
        rfl
    · cases hn
  | send d => exact absurd rfl (hsend d)
  | print d | start w | unlink w =>
    simp only [step] at hn
    split at hn
    · cases hn
      rfl
    · cases hn
  | create w ok =>
    simp only [step] at hn
    split at hn
    · split at hn
      · split at hn
        · cases hn
          rfl
        · cases hn
          rfl
      · cases hn
        rfl
    · cases hn
  | receive w => exact absurd rfl (hreceive w)

/-- `mq_send` -/
theorem InOrder.send (h : InOrder s) {d : DispatcherId} {b : State}
    (hn : step s.base (.send d) = some b) : InOrder (record s (.send d) b) := by
  have hsound := sound_move h.sound (step_move hn)
  simp only [step] at hn
  split at hn
  · rename_i q hd
    unfold sendStep at hn
    split at hn
    · cases hn
      simp only [record, hd, setDispatcher_dispatcher, if_true]
      exact h.congr hsound rfl
    · split at hn
      · cases hn
      · cases hn
        simp only [record, hd, setDispatcher_dispatcher, if_true]
        refine ⟨hsound, fun q' => ?_, fun q' p => ?_⟩
        · show MessageQueue.Ordered _ (Function.update s.base.queues q _ q')
          rw [Function.update_apply]
          split
          · exact (h.ordered q).send
          · exact h.ordered q'
        · show ofPrio p (s.taken q') ++ ofPrio p (Function.update s.base.queues q _ q') =
            ofPrio p (Function.update s.sent q _ q')
          rw [Function.update_apply, Function.update_apply]
          split
          · rename_i hq
            rw [hq, ofPrio_append, ← h.fifo q p, List.append_assoc]
            exact congrArg (ofPrio p (s.taken q) ++ ·) ((h.ordered q).filter_send p)
          · exact h.fifo q' p
  · cases hn

/-- `mq_receive` -/
theorem InOrder.receive (h : InOrder s) {w : WorkerId} {b : State}
    (hn : step s.base (.receive w) = some b) : InOrder (record s (.receive w) b) := by
  have hsound := sound_move h.sound (step_move hn)
  simp only [step] at hn
  split at hn
  · rename_i q hw
    unfold receiveStep at hn
    split at hn
    · cases hn
    · rename_i m ms hq
      cases hn
      have hordered := h.ordered q
      have hfifo := h.fifo q
      simp only [hq] at hordered hfifo
      simp only [record, hw, hq]
      refine ⟨hsound, fun q' => ?_, fun q' p => ?_⟩
      · show MessageQueue.Ordered _ (Function.update s.base.queues q ms q')
        rw [Function.update_apply]
        split
        · exact hordered.tail
        · exact h.ordered q'
      · show ofPrio p (Function.update s.taken q (s.taken q ++ [m]) q') ++
          ofPrio p (Function.update s.base.queues q ms q') = ofPrio p (s.sent q')
        rw [Function.update_apply, Function.update_apply]
        split
        · rename_i hq'
          rw [hq', ← hfifo p, ofPrio_append, List.append_assoc, ← ofPrio_append p [m] ms]
          rfl
        · exact h.fifo q' p
  · cases hn

/-- An interrupt sends nothing and receives nothing. -/
theorem sound_interrupt {b c : State} (h : Sound b) {w : WorkerId} {cleanup : Bool}
    (hn : interrupt b w cleanup = some c) : Sound c ∧ c.queues = b.queues := by
  unfold interrupt at hn
  split at hn
  · cases hn
    exact ⟨⟨fun d => (h.placed d).congr rfl rfl (fun _ => rfl), h.started⟩, rfl⟩
  · obtain ⟨-, ht⟩ := Option.ite_none_left_eq_some.1 hn
    cases ht
    exact ⟨⟨fun d => (h.placed d).congr rfl rfl (fun _ => rfl), h.started⟩, rfl⟩
  · obtain ⟨-, ht⟩ := Option.ite_none_left_eq_some.1 hn
    cases ht
    exact ⟨⟨fun d => (h.placed d).congr rfl rfl (fun _ => rfl), h.started⟩, rfl⟩
  · cases hn
  · cases hn

theorem InOrder.step (h : InOrder s) {e : Event} (hn : tracedStep s e = some t) : InOrder t := by
  cases e with
  | act a =>
    obtain ⟨b, hb, rfl⟩ := Option.map_eq_some_iff.1 hn
    cases a with
    | send d => exact h.send hb
    | receive w => exact h.receive hb
    | dispatch | openName | print | start | unlink | create =>
      exact h.congr (sound_move h.sound (step_move hb))
        (queues_step hb (fun d e => by cases e) (fun w e => by cases e))
  | interrupt w cleanup =>
    obtain ⟨b, hb, rfl⟩ := Option.map_eq_some_iff.1 hn
    obtain ⟨hsound, hqueues⟩ := sound_interrupt h.sound hb
    exact h.congr hsound hqueues

/-! ### The main result -/

/-- **Tasks are received in order**, whatever dispatchers and workers there are and whenever workers
are interrupted: from each queue the tasks of one priority are received in the order in which they
were sent to it, and those that have not been received are waiting there; the task that is received
next is of the highest priority among these; and no task is received twice. -/
theorem received_in_order (hr : Reachable tracedStep Any tracedInitial s) :
    (∀ q p, ofPrio p (s.taken q) ++ ofPrio p (s.base.queues q) = ofPrio p (s.sent q)) ∧
    (∀ q m ms, s.base.queues q = m :: ms → ∀ x ∈ ms, x.prio ≤ m.prio) ∧
    ∀ d, s.base.deliveries d ≤ 1 := by
  have h : InOrder s := hr.invariant .initial (fun _ _ _ h _ hn => h.step hn)
  refine ⟨h.fifo, fun q m ms hq x hx => ?_, fun d => ?_⟩
  · have hordered := h.ordered q
    rw [hq] at hordered
    exact hordered.head (List.mem_cons_of_mem m hx)
  · cases hd : (s.base.dispatcher d).queue with
    | none =>
      have hzero := ((h.sound.placed d).unsent hd).1
      omega
    | some q =>
      have hone := ((h.sound.placed d).once q hd).1
      omega

/-- Three tasks to one worker, which is interrupted when it has received the most urgent one. -/
def interrupted : List Event :=
  [.act (.start 0), .act (.unlink 0), .act (.create 0 true),
    .act (.dispatch 1 (CString.text "first")), .act (.dispatch 1 (CString.text "second")),
    .act (.dispatch 9 (CString.text "urgent")), .act (.openName 0), .act (.openName 1),
    .act (.openName 2), .act (.send 1), .act (.send 0), .act (.send 2), .act (.receive 0),
    .interrupt 0 true]

theorem received_in_order_interrupted : ∃ s, exec tracedStep tracedInitial interrupted = some s ∧
    s.base.name = none ∧ ofPrio 1 (s.taken 0) ++ ofPrio 1 (s.base.queues 0) = ofPrio 1 (s.sent 0) ∧
    (s.base.queues 0).map (·.sender) = [1, 0] := by
  have hr : Reachable tracedStep Any tracedInitial _ := ⟨interrupted, exec_run rfl⟩
  exact ⟨_, rfl, rfl, (received_in_order hr).1 0 1, rfl⟩

end EmbeddedLinux.TaskQueue
