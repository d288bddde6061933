import EmbeddedLinux.Lib.MessageQueue
import EmbeddedLinux.Lib.Transition
import EmbeddedLinux.TaskQueue.Worker

/-!
# Dispatchers and workers around one queue name

Any number of runs of `task_dispatcher` and of `task_worker`, interleaved step by step.  A
dispatcher opens the queue that has `QUEUE_NAME`, sends its task and prints that it was
sent.  A worker removes the name, then creates a queue under it, or opens the one that
has it by then, and receives from this queue for good.  A queue without a name stays with
the processes that have it open.

A task is known by the run of the dispatcher that sent it.  No task is ever duplicated
(`Sound`).  A task disappears when a worker starts while the queue in force still holds
it, or while its dispatcher has that queue open and has not sent it yet (`InUse`), and
this is the only way: `tasks_kept`.
-/

namespace EmbeddedLinux.TaskQueue

open Transition

/-- `MAX_MESSAGES` -/
abbrev maxMessages : Nat := 10

/-- Queues, in the order in which they are created. -/
abbrev QueueId := Nat

/-- Runs of `task_dispatcher`, in the order in which they are started. -/
abbrev DispatcherId := Nat

abbrev WorkerId := Nat

/-- A message, and the run that sent it. -/
structure Message extends Task where
  sender : DispatcherId

def Message.priority (m : Message) : Nat := m.prio

/-- Where a run of `task_dispatcher` is. -/
inductive DispatcherPc
  | absent
  /-- at `mq_open` -/
  | opening
  /-- at `mq_send`, with the queue open -/
  | sending (q : QueueId)
  /-- `mq_send` has returned 0: at `printf` -/
  | printing (q : QueueId)
  /-- "Task sent" has been printed -/
  | printed (q : QueueId)
  /-- a call has failed -/
  | failed
  deriving DecidableEq

/-- Where a `task_worker` is. -/
inductive WorkerPc
  | absent
  /-- at `mq_unlink` -/
  | unlinking
  /-- at `mq_open` -/
  | creating
  /-- in the receive loop -/
  | receiving (q : QueueId)
  | failed
  deriving DecidableEq

/-- The queues, the one that has `QUEUE_NAME`, and the processes.  `received` is read by no
step: what the workers have received so far. -/
structure State where
  queues : QueueId → List Message
  created : Nat
  name : Option QueueId
  dispatchers : Nat
  task : DispatcherId → Task
  dispatcher : DispatcherId → DispatcherPc
  worker : WorkerId → WorkerPc
  received : List (WorkerId × Message)

/-- Nobody is running, and the name is free. -/
def initial : State :=
  { queues := fun _ => []
    created := 0
    name := none
    dispatchers := 0
    task := fun _ => { prio := 0, task := [] }
    dispatcher := fun _ => .absent
    worker := fun _ => .absent
    received := [] }

inductive Action
  /-- `task_dispatcher` is started; its priority argument is read as `prio` -/
  | dispatch (prio : Nat) (task : List UInt8)
  | openName (d : DispatcherId)
  | send (d : DispatcherId)
  | print (d : DispatcherId)
  /-- `task_worker` is started -/
  | start (w : WorkerId)
  | unlink (w : WorkerId)
  /-- `mq_open` with `O_CREAT`; `ok`: it does not fail -/
  | create (w : WorkerId) (ok : Bool)
  | receive (w : WorkerId)
  deriving DecidableEq

namespace State

def setDispatcher (s : State) (d : DispatcherId) (pc : DispatcherPc) : State :=
  { s with dispatcher := Function.update s.dispatcher d pc }

def setWorker (s : State) (w : WorkerId) (pc : WorkerPc) : State :=
  { s with worker := Function.update s.worker w pc }

def setQueue (s : State) (q : QueueId) (ms : List Message) : State :=
  { s with queues := Function.update s.queues q ms }

end State

/-- `mq_send` on the queue `q`: it fails on a message that is too long, and waits while the
queue is full. -/
def sendStep (s : State) (d : DispatcherId) (q : QueueId) : Option State :=
  if maxMsgSize < (s.task d).task.length then some (s.setDispatcher d .failed)
  else if maxMessages ≤ (s.queues q).length then none
  else
    let m : Message := { s.task d with sender := d }
    some ((s.setQueue q (MessageQueue.send Message.priority (s.queues q) m)).setDispatcher d
      (.printing q))

/-- `mq_receive` on the queue `q`: it waits while the queue is empty. -/
def receiveStep (s : State) (w : WorkerId) (q : QueueId) : Option State :=
  match s.queues q with
  | [] => none
  | m :: ms => some { s.setQueue q ms with received := s.received ++ [(w, m)] }

def step (s : State) : Action → Option State
  | .dispatch prio task =>
    let pc := if 31 < prio then DispatcherPc.failed else .opening
    some { s with
      dispatchers := s.dispatchers + 1
      task := Function.update s.task s.dispatchers { prio := prio, task := CString.cstr task }
      dispatcher := Function.update s.dispatcher s.dispatchers pc }
  | .openName d =>
    match s.dispatcher d with
    | .opening => match s.name with
      | some q => some (s.setDispatcher d (.sending q))
      | none => some (s.setDispatcher d .failed)
    | _ => none
  | .send d =>
    match s.dispatcher d with
    | .sending q => sendStep s d q
    | _ => none
  | .print d =>
    match s.dispatcher d with
    | .printing q => some (s.setDispatcher d (.printed q))
    | _ => none
  | .start w =>
    match s.worker w with
    | .absent => some (s.setWorker w .unlinking)
    | _ => none
  | .unlink w =>
    match s.worker w with
    | .unlinking => some { s.setWorker w .creating with name := none }
    | _ => none
  | .create w ok =>
    match s.worker w with
    | .creating =>
      if ok then match s.name with
        | some q => some (s.setWorker w (.receiving q))
        | none => some { s.setWorker w (.receiving s.created) with
            name := some s.created, created := s.created + 1 }
      else some (s.setWorker w .failed)
    | _ => none
  | .receive w =>
    match s.worker w with
    | .receiving q => receiveStep s w q
    | _ => none

/-- **What a step can do.** -/
inductive Move (s : State) : Action → State → Prop
  | dispatch (prio : Nat) (task : List UInt8) {pc : DispatcherPc}
      (hpc : pc = .failed ∨ pc = .opening) :
      Move s (.dispatch prio task) { s with
        dispatchers := s.dispatchers + 1
        task := Function.update s.task s.dispatchers { prio := prio, task := CString.cstr task }
        dispatcher := Function.update s.dispatcher s.dispatchers pc }
  | opened {d : DispatcherId} {q : QueueId} (hd : s.dispatcher d = .opening)
      (hname : s.name = some q) : Move s (.openName d) (s.setDispatcher d (.sending q))
  | gaveUp {d : DispatcherId} {a : Action}
      (hd : s.dispatcher d = .opening ∨ ∃ q, s.dispatcher d = .sending q) :
      Move s a (s.setDispatcher d .failed)
  | sent {d : DispatcherId} {q : QueueId} (hd : s.dispatcher d = .sending q)
      (hlen : (s.task d).task.length ≤ maxMsgSize) :
      Move s (.send d) ((s.setQueue q (MessageQueue.send Message.priority (s.queues q)
        { s.task d with sender := d })).setDispatcher d (.printing q))
  | printed {d : DispatcherId} {q : QueueId} (hd : s.dispatcher d = .printing q) :
      Move s (.print d) (s.setDispatcher d (.printed q))
  | unlinked {w : WorkerId} (hw : s.worker w = .unlinking) :
      Move s (.unlink w) { s.setWorker w .creating with name := none }
  | created {w : WorkerId} (hname : s.name = none) :
      Move s (.create w true) { s.setWorker w (.receiving s.created) with
        name := some s.created, created := s.created + 1 }
  | worker {w : WorkerId} {pc : WorkerPc} {a : Action} : Move s a (s.setWorker w pc)
  | received {w : WorkerId} {q : QueueId} {m : Message} {ms : List Message}
      (hq : s.queues q = m :: ms) :
      Move s (.receive w) { s.setQueue q ms with received := s.received ++ [(w, m)] }

theorem step_move {s t : State} {a : Action} (h : step s a = some t) : Move s a t := by
  cases a with
  | dispatch prio task =>
    cases h
    refine .dispatch prio task ?_
    split
    · exact Or.inl rfl
    · exact Or.inr rfl
  | openName d =>
    simp only [step] at h
    split at h
    · rename_i hd
      split at h
      · cases h
        exact .opened hd ‹_›
      · cases h
        exact .gaveUp (Or.inl hd)
    · cases h
  | send d =>
    simp only [step] at h
    split at h
    · rename_i q hd
      unfold sendStep at h
      split at h
      · cases h
        exact .gaveUp (Or.inr ⟨q, hd⟩)
      · split at h
        · cases h
        · cases h
          exact .sent hd (by omega)
    · cases h
  | print d =>
    simp only [step] at h
    split at h
    · cases h
      exact .printed ‹_›
    · cases h
  | start w =>
    simp only [step] at h
    split at h
    · cases h
      exact .worker
    · cases h
  | unlink w =>
    simp only [step] at h
    split at h
    · cases h
      exact .unlinked ‹_›
    · cases h
  | create w ok =>
    simp only [step] at h
    split at h
    · split at h
      · rename_i hok
        subst hok
        split at h
        · cases h
          exact .worker
        · cases h
          exact .created ‹_›
      · cases h
        exact .worker
    · cases h
  | receive w =>
    simp only [step] at h
    split at h
    · unfold receiveStep at h
      split at h
      · cases h
      · cases h
        exact .received ‹_›
    · cases h

/-! ### No task is duplicated -/

/-- How often a worker has received the task of run `d`. -/
def State.deliveries (s : State) (d : DispatcherId) : Nat :=
  s.received.countP (fun r => r.2.sender == d)

/-- How often the task of run `d` is in the queue `q`. -/
def State.waiting (s : State) (d : DispatcherId) (q : QueueId) : Nat :=
  (s.queues q).countP (fun m => m.sender == d)

/-- The queue the task was sent to. -/
def DispatcherPc.queue : DispatcherPc → Option QueueId
  | .printing q | .printed q => some q
  | _ => none

/-- Where the task of run `d` is. -/
structure Placed (s : State) (d : DispatcherId) : Prop where
  unsent : (s.dispatcher d).queue = none → s.deliveries d = 0 ∧ ∀ q, s.waiting d q = 0
  once : ∀ q, (s.dispatcher d).queue = some q → s.deliveries d + s.waiting d q = 1 ∧
    ∀ q', q' ≠ q → s.waiting d q' = 0

/-- What holds on every run. -/
structure Sound (s : State) : Prop where
  placed : ∀ d, Placed s d
  started : ∀ d, s.dispatchers ≤ d → s.dispatcher d = .absent

theorem sound_initial : Sound initial := by
  refine ⟨fun d => ⟨fun _ => ⟨rfl, fun _ => rfl⟩, ?_⟩, fun _ _ => rfl⟩
  intro q h
  cases h

theorem Placed.congr {s t : State} {d : DispatcherId} (h : Placed s d)
    (hd : (t.dispatcher d).queue = (s.dispatcher d).queue) (hdel : t.deliveries d = s.deliveries d)
    (hwait : ∀ q, t.waiting d q = s.waiting d q) : Placed t d := by
  refine ⟨fun e => ?_, fun q e => ?_⟩
  · rw [hdel]
    obtain ⟨h1, h2⟩ := h.unsent (hd ▸ e)
    exact ⟨h1, fun q => (hwait q).trans (h2 q)⟩
  · rw [hdel, hwait]
    obtain ⟨h1, h2⟩ := h.once q (hd ▸ e)
    exact ⟨h1, fun q' hq' => (hwait q').trans (h2 q' hq')⟩

theorem setDispatcher_dispatcher (s : State) (d d' : DispatcherId) (pc : DispatcherPc) :
    (s.setDispatcher d pc).dispatcher d' = if d' = d then pc else s.dispatcher d' :=
  Function.update_apply _ _ _ _

theorem setQueue_waiting (s : State) (d : DispatcherId) (q q' : QueueId) (ms : List Message) :
    (s.setQueue q ms).waiting d q' =
      if q' = q then ms.countP (fun m => m.sender == d) else s.waiting d q' := by
  unfold State.waiting State.setQueue
  simp only [Function.update_apply]
  split <;> rfl

theorem setDispatcher_queue {s : State} {d d' : DispatcherId} {pc : DispatcherPc}
    (hpc : pc.queue = (s.dispatcher d).queue) :
    ((s.setDispatcher d pc).dispatcher d').queue = (s.dispatcher d').queue := by
  rw [setDispatcher_dispatcher]
  split
  · rename_i e
    rw [hpc, e]
  · rfl

/-- The message that run `d` sends is counted for `d` only. -/
theorem Placed.send {s : State} {d : DispatcherId} {q : QueueId} {m : Message}
    (hd : (s.dispatcher d).queue = none) (hm : m.sender = d) (d' : DispatcherId)
    (h : Placed s d') :
    Placed ((s.setQueue q (MessageQueue.send Message.priority (s.queues q) m)).setDispatcher d
      (.printing q)) d' := by
  have hwait : ∀ q',
      ((s.setQueue q (MessageQueue.send Message.priority (s.queues q) m)).setDispatcher d
        (.printing q)).waiting d' q' =
        s.waiting d' q' + if q' = q ∧ d' = d then 1 else 0 := by
    intro q'
    refine (setQueue_waiting s d' q q' _).trans ?_
    rw [MessageQueue.countP_send, hm]
    by_cases hq : q' = q
    · subst hq
      by_cases hdd : d' = d
      · simp [State.waiting, hdd]
      · simp [State.waiting, hdd, Ne.symm hdd]
    · simp [hq]
  by_cases hdd : d' = d
  · subst hdd
    obtain ⟨h1, h2⟩ := h.unsent hd
    refine ⟨fun e => ?_, fun q₁ e => ?_⟩
    · rw [setDispatcher_dispatcher, if_pos rfl] at e
      cases e
    · rw [setDispatcher_dispatcher, if_pos rfl] at e
      cases e
      refine ⟨?_, fun q' hq' => ?_⟩
      · rw [hwait, if_pos ⟨rfl, rfl⟩, h2]
        exact congrArg (· + 1) h1
      · rw [hwait, if_neg (fun e => hq' e.1), h2]
  · refine h.congr ?_ rfl (fun q' => ?_)
    · rw [setDispatcher_dispatcher, if_neg hdd]
      rfl
    · rw [hwait, if_neg (fun e => hdd e.2)]
      rfl

/-- A task that is received leaves its queue. -/
theorem Placed.receive {s : State} {d : DispatcherId} {w : WorkerId} {q : QueueId} {m : Message}
    {ms : List Message} (h : Placed s d) (hq : s.queues q = m :: ms) :
    Placed { s.setQueue q ms with received := s.received ++ [(w, m)] } d := by
  let t : State := { s.setQueue q ms with received := s.received ++ [(w, m)] }
  have hbefore : s.waiting d q = ms.countP (fun m => m.sender == d) +
      if m.sender = d then 1 else 0 := by
    rw [State.waiting, hq, List.countP_cons]
    simp
  have hdel : t.deliveries d = s.deliveries d + if m.sender = d then 1 else 0 := by
    show (s.received ++ [(w, m)]).countP _ = _
    rw [List.countP_append, List.countP_singleton]
    simp [State.deliveries]
  have hwait : ∀ q', t.waiting d q' =
      if q' = q then ms.countP (fun m => m.sender == d) else s.waiting d q' :=
    fun q' => setQueue_waiting s d q q' ms
  by_cases hm : m.sender = d
  · rw [if_pos hm] at hbefore hdel
    refine ⟨fun e => ?_, fun q₁ e => ?_⟩
    · have := (h.unsent e).2 q
      omega
    · obtain ⟨h1, h2⟩ := h.once q₁ e
      have hqq : q = q₁ := by
        by_contra hne
        have := h2 q hne
        omega
      subst hqq
      refine ⟨?_, fun q' hq' => ?_⟩
      · rw [hdel, hwait, if_pos rfl]
        omega
      · rw [hwait, if_neg hq']
        exact h2 q' hq'
  · rw [if_neg hm] at hbefore hdel
    refine h.congr rfl hdel (fun q' => ?_)
    rw [hwait]
    split
    · rename_i e
      rw [e, hbefore]
      rfl
    · rfl

/-- A dispatcher that has been started keeps its number. -/
theorem Sound.started_set {s : State} (hs : Sound s) {d : DispatcherId} {pc : DispatcherPc}
    (hd : s.dispatcher d ≠ .absent) (d' : DispatcherId) (hd' : s.dispatchers ≤ d') :
    (s.setDispatcher d pc).dispatcher d' = .absent := by
  rw [setDispatcher_dispatcher, if_neg]
  · exact hs.started d' hd'
  · rintro rfl
    exact hd (hs.started _ hd')

/-- **Every step keeps the count of the tasks.** -/
theorem sound_move {s t : State} {a : Action} (hs : Sound s) (hm : Move s a t) : Sound t := by
  cases hm with
  | @dispatch prio task pc hpc =>
    have habs := hs.started s.dispatchers le_rfl
    refine ⟨fun d => (hs.placed d).congr ?_ rfl (fun _ => rfl), fun d hd => ?_⟩
    · show (Function.update s.dispatcher s.dispatchers pc d).queue = _
      rw [Function.update_apply]
      split
      · rename_i e
        rw [e, habs]
        rcases hpc with rfl | rfl <;> rfl
      · rfl
    · change s.dispatchers + 1 ≤ d at hd
      show Function.update s.dispatcher s.dispatchers pc d = .absent
      rw [Function.update_of_ne (Nat.ne_of_gt hd)]
      exact hs.started d (Nat.le_of_succ_le hd)
  | opened hd hname =>
    refine ⟨fun d' => (hs.placed d').congr (setDispatcher_queue ?_) rfl (fun _ => rfl),
      hs.started_set ?_⟩ <;> rw [hd]
    · rfl
    · decide
  | @gaveUp d _ hd =>
    have hnone : (s.dispatcher d).queue = none ∧ s.dispatcher d ≠ .absent := by
      rcases hd with hd | ⟨q, hd⟩ <;> rw [hd] <;> exact ⟨rfl, by simp⟩
    exact ⟨fun d' => (hs.placed d').congr (setDispatcher_queue hnone.1.symm) rfl (fun _ => rfl),
      hs.started_set hnone.2⟩
  | sent hd hlen =>
    refine ⟨fun d' => (hs.placed d').send (by rw [hd]; rfl) rfl, ?_⟩
    exact hs.started_set (by rw [hd]; simp)
  | printed hd =>
    refine ⟨fun d' => (hs.placed d').congr (setDispatcher_queue ?_) rfl (fun _ => rfl),
      hs.started_set ?_⟩ <;> rw [hd]
    · rfl
    · simp
  | unlinked hw => exact ⟨fun d' => (hs.placed d').congr rfl rfl (fun _ => rfl), hs.started⟩
  | created hname => exact ⟨fun d' => (hs.placed d').congr rfl rfl (fun _ => rfl), hs.started⟩
  | worker => exact ⟨fun d' => (hs.placed d').congr rfl rfl (fun _ => rfl), hs.started⟩
  | received hq => exact ⟨fun d' => (hs.placed d').receive hq, hs.started⟩

theorem sound_run {s : State} (hr : Reachable step Any initial s) : Sound s :=
  hr.invariant sound_initial (fun _ _ _ ht _ hn => sound_move ht (step_move hn))

/-! ### The name is taken away -/

/-- The queue `q` holds a task, or a dispatcher has it open and has not sent its task yet. -/
def InUse (s : State) (q : QueueId) : Prop :=
  s.queues q ≠ [] ∨
    ∃ d < s.dispatchers, s.dispatcher d = .sending q ∧ (s.task d).task.length ≤ maxMsgSize

/-- A worker takes the name away from a queue that is in use. -/
def CutsOff (s : State) : Action → Prop
  | .unlink _ => ∃ q ∈ s.name, InUse s q
  | _ => False

def Unhurried (s : State) (a : Action) : Prop := ¬ CutsOff s a

instance (s : State) (q : QueueId) : Decidable (InUse s q) :=
  inferInstanceAs (Decidable (_ ∨ ∃ d, d < s.dispatchers ∧ _))

instance (s : State) : (a : Action) → Decidable (CutsOff s a)
  | .unlink _ => inferInstanceAs (Decidable (∃ q ∈ s.name, InUse s q))
  | .dispatch _ _ | .openName _ | .send _ | .print _ | .start _ | .create _ _ | .receive _ =>
    instDecidableFalse

instance (s : State) (a : Action) : Decidable (Unhurried s a) :=
  inferInstanceAs (Decidable (¬ _))

/-- Every queue in use has the name. -/
def Named (s : State) : Prop := ∀ q, InUse s q → s.name = some q

/-- What is in use after a dispatcher has moved on, apart from that one. -/
theorem InUse.of_setDispatcher {s : State} {d : DispatcherId} {pc : DispatcherPc} {q : QueueId}
    (h : InUse (s.setDispatcher d pc) q) : InUse s q ∨ pc = .sending q := by
  rcases h with h | ⟨d', hd', hpc, hlen⟩
  · exact Or.inl (Or.inl h)
  · rw [setDispatcher_dispatcher] at hpc
    split at hpc
    · exact Or.inr hpc
    · exact Or.inl (Or.inr ⟨d', hd', hpc, hlen⟩)

theorem Sound.lt {s : State} (hs : Sound s) {d : DispatcherId} (hd : s.dispatcher d ≠ .absent) :
    d < s.dispatchers := by
  by_contra hn
  exact hd (hs.started d (Nat.le_of_not_lt hn))

/-- **A worker that takes the name from no queue in use keeps every such queue named**, and
so do all the other steps. -/
theorem named_move {s t : State} {a : Action} (hso : Sound s) (hs : Named s)
    (hu : Unhurried s a) (hm : Move s a t) : Named t := by
  intro q hq
  cases hm with
  | @dispatch prio task pc hpc =>
    rcases hq with hq | ⟨d, hd, hpc', hlen⟩
    · exact hs q (Or.inl hq)
    · change Function.update s.dispatcher s.dispatchers pc d = _ at hpc'
      change (Function.update s.task s.dispatchers _ d).task.length ≤ _ at hlen
      by_cases he : d = s.dispatchers
      · rw [he, Function.update_self] at hpc'
        rcases hpc with rfl | rfl <;> cases hpc'
      · rw [Function.update_of_ne he] at hpc' hlen
        have hlt : d < s.dispatchers := Nat.lt_of_le_of_ne (Nat.le_of_lt_succ hd) he
        exact hs q (Or.inr ⟨d, hlt, hpc', hlen⟩)
  | @opened d q' hd hname =>
    rcases hq.of_setDispatcher with hq | e
    · exact hs q hq
    · cases e
      exact hname
  | gaveUp hd =>
    rcases hq.of_setDispatcher with hq | e
    · exact hs q hq
    · cases e
  | printed hd =>
    rcases hq.of_setDispatcher with hq | e
    · exact hs q hq
    · cases e
  | @sent d q' hd hlen =>
    have hlt : d < s.dispatchers := hso.lt (by rw [hd]; simp)
    rcases hq.of_setDispatcher with hq | e
    · rcases hq with hq | hq
      · change Function.update s.queues q' _ q ≠ [] at hq
        by_cases he : q = q'
        · rw [he]
          exact hs q' (Or.inr ⟨d, hlt, hd, hlen⟩)
        · rw [Function.update_of_ne he] at hq
          exact hs q (Or.inl hq)
      · exact hs q (Or.inr hq)
    · cases e
  | unlinked hw => exact absurd ⟨q, hs q hq, hq⟩ hu
  | created hname =>
    have := hs q hq
    rw [hname] at this
    cases this
  | worker => exact hs q hq
  | @received w q' m ms hq' =>
    rcases hq with hq | hq
    · change Function.update s.queues q' ms q ≠ [] at hq
      by_cases he : q = q'
      · exact hs q (Or.inl (by rw [he, hq']; simp))
      · rw [Function.update_of_ne he] at hq
        exact hs q (Or.inl hq)
    · exact hs q (Or.inr hq)

theorem named_run {s : State} (hr : Reachable step Unhurried initial s) : Sound s ∧ Named s := by
  refine hr.invariant (P := fun s => Sound s ∧ Named s) ⟨sound_initial, ?_⟩ ?_
  · intro q hq
    rcases hq with hq | ⟨d, hd, -⟩
    · exact absurd rfl hq
    · cases hd
  · intro s a t ⟨hso, hs⟩ hu hn
    exact ⟨sound_move hso (step_move hn), named_move hso hs hu (step_move hn)⟩

/-! ### The result -/

/-- How often the task of run `d` is in the queue that has the name. -/
def State.waitingNow (s : State) (d : DispatcherId) : Nat := (s.name.map (s.waiting d)).getD 0

/-- The task has been received once and is gone, or it waits where the workers look. -/
def Kept (s : State) (d : DispatcherId) : Prop := s.deliveries d + s.waitingNow d = 1

instance (s : State) (d : DispatcherId) : Decidable (Kept s d) :=
  inferInstanceAs (Decidable (_ = _))

/-- "Task sent" has been printed for it. -/
def State.Accepted (s : State) (d : DispatcherId) : Prop := ∃ q, s.dispatcher d = .printed q

theorem kept_of_named {s : State} (hso : Sound s) (hs : Named s) {d : DispatcherId}
    (hd : s.Accepted d) : Kept s d := by
  obtain ⟨q, hd⟩ := hd
  obtain ⟨h1, h2⟩ := (hso.placed d).once q (by rw [hd]; rfl)
  unfold Kept State.waitingNow
  by_cases hz : s.waiting d q = 0
  · cases hname : s.name with
    | none =>
      show s.deliveries d + 0 = 1
      omega
    | some q' =>
      have hz' : s.waiting d q' = 0 := by
        by_cases he : q' = q
        · rw [he, hz]
        · exact h2 q' he
      show s.deliveries d + s.waiting d q' = 1
      omega
  · have hne : s.queues q ≠ [] := by
      intro e
      apply hz
      rw [State.waiting, e]
      rfl
    rw [hs q (Or.inl hne)]
    exact h1

/-- A task in a queue without the name is neither received nor where the workers look. -/
theorem not_kept {s : State} {d : DispatcherId} (hname : s.name = none)
    (hdel : s.deliveries d = 0) : ¬ Kept s d := by
  rw [Kept, State.waitingNow, hname, hdel]
  exact Nat.zero_ne_one

/-- **A worker that takes the name from a queue in use can lose a task.** -/
theorem cut_off_loses {s : State} {w : WorkerId} (hs : Sound s) (hw : s.worker w = .unlinking)
    (hcut : CutsOff s (.unlink w)) :
    ∃ t d, Reachable step Any s t ∧ t.Accepted d ∧ ¬ Kept t d := by
  obtain ⟨q, hname, huse⟩ := hcut
  let u : State := { s.setWorker w .creating with name := none }
  have hu : step s (.unlink w) = some u := by
    simp only [step, hw]
    rfl
  by_cases hq : s.queues q = []
  · -- the dispatcher still has to send
    obtain ⟨d, -, hd, hlen⟩ := huse.resolve_left (fun h => h hq)
    have hdel := ((hs.placed d).unsent (by rw [hd]; rfl)).1
    let m : Message := { s.task d with sender := d }
    let v : State :=
      (u.setQueue q (MessageQueue.send Message.priority (s.queues q) m)).setDispatcher d
        (.printing q)
    have hv : step u (.send d) = some v := by
      have hd' : u.dispatcher d = .sending q := hd
      simp only [step, hd']
      unfold sendStep
      rw [if_neg (by show ¬ maxMsgSize < (s.task d).task.length; omega), if_neg]
      · rfl
      · show ¬ maxMessages ≤ (s.queues q).length
        rw [hq]
        decide
    have ht : step v (.print d) = some (v.setDispatcher d (.printed q)) := by
      have hd' : v.dispatcher d = .printing q := Function.update_self _ _ _
      simp only [step, hd']
    refine ⟨v.setDispatcher d (.printed q), d, ?_, ⟨q, Function.update_self _ _ _⟩, ?_⟩
    · exact (((Reachable.refl s).step trivial hu).step trivial hv).step trivial ht
    · exact not_kept rfl hdel
  · -- a task is already in the queue
    obtain ⟨m, ms, hms⟩ := List.exists_cons_of_ne_nil hq
    have hwait : 1 ≤ s.waiting m.sender q := by
      rw [State.waiting, hms, List.countP_cons]
      simp
    have hqueue : (s.dispatcher m.sender).queue = some q := by
      cases hd : (s.dispatcher m.sender).queue with
      | none =>
        have := ((hs.placed m.sender).unsent hd).2 q
        omega
      | some q' =>
        by_contra hne
        have := ((hs.placed m.sender).once q' hd).2 q (fun e => hne (by rw [e]))
        omega
    have hdel : s.deliveries m.sender = 0 := by
      have := ((hs.placed m.sender).once q hqueue).1
      omega
    cases hd : s.dispatcher m.sender with
    | printing q' =>
      have ht : step u (.print m.sender) = some (u.setDispatcher m.sender (.printed q')) := by
        have hd' : u.dispatcher m.sender = .printing q' := hd
        simp only [step, hd']
      refine ⟨_, m.sender, ((Reachable.refl s).step trivial hu).step trivial ht,
        ⟨q', Function.update_self _ _ _⟩, not_kept rfl hdel⟩
    | printed q' =>
      exact ⟨u, m.sender, (Reachable.refl s).step trivial hu, ⟨q', hd⟩, not_kept rfl hdel⟩
    | absent | opening | sending _ | failed =>
      rw [hd] at hqueue
      cases hqueue

/-- **No accepted task disappears**, on a run in which no worker takes the name away from a
queue that holds a task or that a dispatcher is about to send to: every task for which
"Task sent" was printed has been received once, or waits in the queue that has the
name.  Wherever a worker does so, a task can be lost. -/
theorem tasks_kept (s : State) :
    (∀ d, Reachable step Unhurried initial s → s.Accepted d → Kept s d) ∧
    ∀ w, Reachable step Any initial s → s.worker w = .unlinking → CutsOff s (.unlink w) →
      ∃ t d, Reachable step Any s t ∧ t.Accepted d ∧ ¬ Kept t d := by
  constructor
  · intro d hr hd
    obtain ⟨hso, hs⟩ := named_run hr
    exact kept_of_named hso hs hd
  · intro w hr hw hcut
    exact cut_off_loses (sound_run hr) hw hcut

/-- A worker is started, and a task is sent to it. -/
def sendOne : List Action :=
  [.start 0, .unlink 0, .create 0 true, .dispatch 30 (CString.text "restart"), .openName 0,
    .send 0, .print 0]

/-- One worker, and one task, which is received. -/
theorem tasks_kept_one :
    ∃ s, exec step initial (sendOne ++ [.receive 0]) = some s ∧ s.Accepted 0 ∧ Kept s 0 := by
  have hr : Reachable step Unhurried initial _ := ⟨sendOne ++ [.receive 0], exec_guarded rfl⟩
  exact ⟨_, rfl, ⟨0, rfl⟩, (tasks_kept _).1 0 hr ⟨0, rfl⟩⟩

/-- **A second worker is started while a task is waiting**: the task is in a queue that has
no name any more, and the first worker has not received it. -/
theorem second_worker_loses :
    ∃ s, Run step Any initial (sendOne ++ [.start 1, .unlink 1, .create 1 true]) s ∧
      s.Accepted 0 ∧ s.deliveries 0 = 0 ∧ s.name = some 1 ∧ s.queues 1 = [] ∧ ¬ Kept s 0 :=
  ⟨_, exec_run rfl, ⟨0, rfl⟩, rfl, rfl, rfl, by decide⟩

/-- **A task is sent to nobody**: the dispatcher has opened the queue of a worker that is gone
from the name when it sends.  No worker that is started later can receive it. -/
theorem sent_to_nobody :
    ∃ s, Run step Any initial ([.start 0, .unlink 0, .create 0 true,
        .dispatch 30 (CString.text "restart"), .openName 0, .start 1, .unlink 1, .create 1 true,
        .send 0, .print 0]) s ∧
      s.Accepted 0 ∧ s.deliveries 0 = 0 ∧ s.name = some 1 ∧ ¬ Kept s 0 :=
  ⟨_, exec_run rfl, ⟨0, rfl⟩, rfl, rfl, by decide⟩

end EmbeddedLinux.TaskQueue
