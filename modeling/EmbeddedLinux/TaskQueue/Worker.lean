import EmbeddedLinux.Lib.CString

/-!
# One task from the dispatcher to the worker

What `task_dispatcher` hands to `mq_send`, and the receive loop of `task_worker`: the
message is copied into `buffer`, a NUL is stored behind it, and the text is printed.  The
buffer is used again for the next message.  It has `MAX_MSG_SIZE` bytes, and this is
also the size up to which the queue takes messages, so for a message of exactly that
size the NUL is stored behind the buffer (`full_task_overruns`); every shorter one is printed
as it was sent (`tasks_intact_iff`).
-/

namespace EmbeddedLinux.TaskQueue

open CString

/-- `MAX_MSG_SIZE`, the size of `buffer`, and `attr.mq_msgsize` -/
abbrev maxMsgSize : Nat := 256

/-- A message in the queue. -/
structure Task where
  prio : Nat
  task : List UInt8
  deriving DecidableEq

/-! ### The dispatcher -/

/-- The message of a run of `task_dispatcher` whose priority argument is read as `prio`, when
`mq_send` takes it: the priority passes the check, and the string is not longer than
the queue's `mq_msgsize`. -/
def sent (prio : Nat) (task : List UInt8) : Option Task :=
  if 31 < prio then none
  else if maxMsgSize < (cstr task).length then none
  else some { prio := prio, task := cstr task }

theorem sent_eq_some {prio : Nat} {task : List UInt8} {m : Task} (h : sent prio task = some m) :
    m.prio = prio ∧ prio ≤ 31 ∧ m.task = cstr task ∧ m.task.length ≤ maxMsgSize := by
  unfold sent at h
  split at h
  · cases h
  · split at h
    · cases h
    · cases h
      exact ⟨rfl, by omega, rfl, by show (cstr task).length ≤ _; omega⟩

/-! ### The worker -/

abbrev Buffer := Fin maxMsgSize → UInt8

/-- `mq_receive(mq, buffer, MAX_MSG_SIZE, &prio)`: the first bytes are those of the message,
the others stay. -/
def mqReceive (buffer : Buffer) (m : Task) : Buffer := fun i => m.task.getD i (buffer i)

/-- `buffer[bytes_read] = '\\0'`, or `none` when that is not a byte of the buffer. -/
def terminate (buffer : Buffer) (bytesRead : Nat) : Option Buffer :=
  if h : bytesRead < maxMsgSize then some (Function.update buffer ⟨bytesRead, h⟩ 0) else none

/-- What `printf("Processing task (Priority: %u): %s\\n", prio, s)` prints. -/
def line (prio : Nat) (s : List UInt8) : List UInt8 :=
  text "Processing task (Priority: " ++ decimal prio ++ text "): " ++ s ++ text "\n"

/-- One turn of the receive loop: the buffer after it, and what it prints. -/
def process (buffer : Buffer) (m : Task) : Option (Buffer × List UInt8) :=
  (terminate (mqReceive buffer m) m.task.length).map
    (fun b => (b, line m.prio (cstr (List.ofFn b))))

/-- The receive loop on the messages `ms`, in the order in which they are received. -/
def work : Buffer → List Task → Option (List (List UInt8))
  | _, [] => some []
  | buffer, m :: ms =>
    (process buffer m).bind (fun r => (work r.1 ms).map (fun out => r.2 :: out))

/-- **A message that leaves room for the NUL is printed as it is**, whatever the buffer held
before. -/
theorem process_eq (buffer : Buffer) {m : Task} (h0 : 0 ∉ m.task)
    (hlen : m.task.length < maxMsgSize) :
    ∃ b, process buffer m = some (b, line m.prio m.task) := by
  let b := Function.update (mqReceive buffer m) ⟨m.task.length, hlen⟩ 0
  have hb : cstr (List.ofFn b) = m.task := by
    refine cstr_ofFn h0 hlen (fun i hi => ?_) (Function.update_self _ _ _)
    have hne : (⟨i, hi.trans hlen⟩ : Fin maxMsgSize) ≠ ⟨m.task.length, hlen⟩ := Fin.ne_of_lt hi
    rw [show b = Function.update _ _ _ from rfl, Function.update_of_ne hne, mqReceive]
    exact (List.getElem_eq_getD _).symm
  refine ⟨b, ?_⟩
  unfold process terminate
  rw [dif_pos hlen, Option.map_some, hb]

theorem process_none {buffer : Buffer} {m : Task} (hlen : maxMsgSize ≤ m.task.length) :
    process buffer m = none := by
  unfold process terminate
  rw [dif_neg (Nat.not_lt.mpr hlen)]
  rfl

theorem work_iff {ms : List Task} (h0 : ∀ m ∈ ms, 0 ∉ m.task) (buffer : Buffer) :
    work buffer ms = some (ms.map (fun m => line m.prio m.task)) ↔
      ∀ m ∈ ms, m.task.length < maxMsgSize := by
  induction ms generalizing buffer with
  | nil => simp [work]
  | cons m ms ih =>
    have ih := fun b => ih (fun x hx => h0 x (List.mem_cons_of_mem _ hx)) b
    by_cases hlen : m.task.length < maxMsgSize
    · obtain ⟨b, hb⟩ := process_eq buffer (h0 m List.mem_cons_self) hlen
      rw [work, hb, Option.bind_some, List.map_cons, List.forall_mem_cons, and_iff_right hlen,
        ← ih b, Option.map_eq_some_iff]
      constructor
      · intro ⟨out, hout, e⟩
        cases e
        exact hout
      · intro hout
        exact ⟨_, hout, rfl⟩
    · rw [work, process_none (Nat.not_lt.mp hlen), Option.bind_none]
      constructor
      · intro e
        cases e
      · intro h
        exact absurd (h m List.mem_cons_self) hlen

/-- **Tasks arrive intact**: whatever tasks were sent, and in whatever order they are
received, every NUL is stored inside the buffer and every line shows the task and the
priority that were sent, if and only if none of the tasks has the full size of a
message. -/
theorem tasks_intact_iff (buffer : Buffer) (ms : List Task)
    (hms : ∀ m ∈ ms, ∃ prio task, sent prio task = some m) :
    work buffer ms = some (ms.map (fun m => line m.prio m.task)) ↔
      ∀ m ∈ ms, m.task.length ≠ maxMsgSize := by
  have hsent : ∀ m ∈ ms, 0 ∉ m.task ∧ m.task.length ≤ maxMsgSize := by
    intro m hm
    obtain ⟨prio, task, hs⟩ := hms m hm
    obtain ⟨-, -, htask, hle⟩ := sent_eq_some hs
    exact ⟨by rw [htask]; exact zero_notMem_cstr _, hle⟩
  rw [work_iff (fun m hm => (hsent m hm).1)]
  constructor
  · intro h m hm
    exact (h m hm).ne
  · intro h m hm
    exact lt_of_le_of_ne (hsent m hm).2 (h m hm)

/-- Two tasks, the longer one first. -/
theorem tasks_intact_two :
    work (fun _ => 7) [⟨30, text "restart"⟩, ⟨10, text "report"⟩] =
      some [line 30 (text "restart"), line 10 (text "report")] := by
  refine (tasks_intact_iff _ _ (fun m hm => ⟨m.prio, m.task, ?_⟩)).mpr ?_
  · revert m
    decide
  · decide

/-- A task of 256 bytes. -/
def fullTask : List UInt8 := List.replicate maxMsgSize 97

/-- **A full message overruns the buffer**: the dispatcher's `mq_send` takes it, and the
worker stores the NUL behind the last byte of `buffer`. -/
theorem full_task_overruns :
    sent 10 fullTask = some ⟨10, fullTask⟩ ∧ ∀ buffer,
      terminate (mqReceive buffer ⟨10, fullTask⟩) fullTask.length = none ∧
      work buffer [⟨10, fullTask⟩] = none := by
  have hlen : fullTask.length = maxMsgSize := List.length_replicate
  have hcstr : cstr fullTask = fullTask := by
    apply cstr_of_zero_notMem
    intro h
    cases List.eq_of_mem_replicate h
  refine ⟨?_, fun buffer => ⟨?_, ?_⟩⟩
  · rw [sent, hcstr, if_neg (by decide), if_neg (by rw [hlen]; decide)]
  · exact dif_neg (by rw [hlen]; decide)
  · rw [work, process_none hlen.ge]
    rfl

end EmbeddedLinux.TaskQueue
