import EmbeddedLinux.Lib.DatagramSockets
import EmbeddedLinux.Lib.Interference

/-!
# Servers and clients on UNIX datagram sockets

The server and the client have the same shape.  Each takes away the file of its socket if there is
one, makes a socket and binds it to the file, receives or sends one message, closes the socket and
takes the file away.  A call may fail; then the program ends, and behind `bind` it still closes its
socket and takes the file away.

Any number of them may run at the same time, on the same two files.  No message is lost but those
that still wait at a server that closes its socket, and none is received twice.  A file is always
that of a program that has bound it and has not taken it away; so none is left in the end.  But a
program may take away the file of another one: a server that has lost its file while no message
waits for it receives nothing any more (`datagrams_accounted`).
-/

namespace EmbeddedLinux.IpcSocket.UnixDgram

open DatagramSockets Interference Transition

/-- The two programs, and the files of their sockets. -/
inductive Role
  | server
  | client
  deriving DecidableEq

/-- Where a program is; what it has done is whom the message was from. -/
inductive Pc (T : Type*)
  /-- at the first `unlink` -/
  | start
  | socket
  | binding
  /-- at `recvfrom` or `sendto` -/
  | working
  /-- at `close` -/
  | closing (done : Option T)
  /-- at the last `unlink` -/
  | removing (done : Option T)
  | ended (done : Option T)
  /-- `socket` or `bind` has failed. -/
  | failed

variable {T : Type*} [DecidableEq T]

abbrev Net (T : Type*) := DatagramSockets.Net Role T

/-- `recvfrom` waits until there is a message. -/
def receive (t : T) (success : Bool) (m : Net T) : Option (Net T × Pc T) :=
  if success then (m.recvfrom t).map (fun r => (r.1, .closing (some r.2)))
  else some (m, .closing none)

def send (t : T) (success : Bool) (m : Net T) : Net T × Pc T :=
  match m.sendto .server t with
  | some m' => if success then (m', .closing (some t)) else (m, .closing none)
  | none => (m, .closing none)

def step (role : T → Role) (t : T) (success : Bool) (m : Net T) : Pc T → Option (Net T × Pc T)
  | .start => some (m.unlink (role t), .socket)
  | .socket => some (m, if success then .binding else .failed)
  | .binding =>
    some (match m.bind (role t) t with
      | some m' => if success then (m', .working) else (m, .failed)
      | none => (m, .failed))
  | .working =>
    match role t with
    | .server => receive t success m
    | .client => some (send t success m)
  | .closing done => some (m.close t, .removing done)
  | .removing done => some (m.unlink (role t), .ended done)
  | .ended _ | .failed => none

def initial : State T (Net T) (Pc T) := { mem := .empty, pc := fun _ => .start }

/-! ### The outline -/

/-- The program has bound its socket and has not taken the file away. -/
def Pc.Holds : Pc T → Prop
  | working | closing _ | removing _ => True
  | _ => False

/-- The socket has been closed. -/
def Pc.Closed : Pc T → Prop
  | removing _ | ended _ => True
  | _ => False

/-- A message may have been sent. -/
def Pc.Past : Pc T → Prop
  | closing _ | removing _ | ended _ => True
  | _ => False

/-- Messages may wait. -/
def Pc.Open : Pc T → Prop
  | working | closing _ => True
  | _ => False

structure Assertion (role : T → Role) (t : T) (pc : Pc T) (m : Net T) : Prop where
  named : ∀ r, m.name r = some t → role t = r ∧ pc.Holds
  sent : t ∈ m.sent → pc.Past
  waits : ∀ x ∈ m.queue, x.1 = t → pc.Open
  closed : pc.Closed → m.closed t = true

variable {role : T → Role} {t u : T} {success : Bool} {m m' : Net T} {pc pc' k : Pc T}

omit [DecidableEq T] in
/-- A socket that can be sent to. -/
theorem Assertion.open (h : Assertion role t pc m) {r : Role} (hname : m.name r = some t)
    (hopen : m.closed t = false) : pc.Open := by
  obtain ⟨-, hholds⟩ := h.named r hname
  cases pc with
  | working | closing => trivial
  | removing done => cases hopen.symm.trans (h.closed trivial)
  | start | socket | binding | ended | failed => exact hholds.elim

omit [DecidableEq T] in
/-- A program that changes only its place. -/
theorem Assertion.goto (h : Assertion role t pc m) (hholds : pc.Holds → pc'.Holds)
    (hpast : pc.Past → pc'.Past) (hopen : pc.Open → pc'.Open) (hclosed : pc'.Closed → pc.Closed) :
    Assertion role t pc' m :=
  ⟨fun r hr => (h.named r hr).imp_right hholds, fun hs => hpast (h.sent hs),
    fun x hx hxt => hopen (h.waits x hx hxt), fun hc => h.closed (hclosed hc)⟩

/-- What a step does. -/
inductive Does (role : T → Role) (t : T) (m : Net T) : Pc T → Net T → Pc T → Prop
  | start : Does role t m .start (m.unlink (role t)) .socket
  | socket : Does role t m .socket m .binding
  | noSocket : Does role t m .socket m .failed
  | noBind : Does role t m .binding m .failed
  | fails : Does role t m .working m (.closing none)
  | binds : m.name (role t) = none →
      Does role t m .binding { m with name := Function.update m.name (role t) (some t) } .working
  | sends {u : T} : role t = .client → m.name .server = some u → m.closed u = false →
      Does role t m .working { m with queue := m.queue ++ [(u, t)], sent := m.sent ++ [t] }
        (.closing (some t))
  | receives {m' : Net T} {u : T} : role t = .server → m.recvfrom t = some (m', u) →
      Does role t m .working m' (.closing (some u))
  | closes {done : Option T} : Does role t m (.closing done) (m.close t) (.removing done)
  | removes {done : Option T} : Does role t m (.removing done) (m.unlink (role t)) (.ended done)

theorem does_of_step (hm : Accounted m) (ha : Assertion role t pc m)
    (h : step role t success m pc = some (m', pc')) : Accounted m' ∧ Does role t m pc m' pc' := by
  cases pc with
  | start =>
    cases h
    exact ⟨hm.unlink _, .start⟩
  | socket =>
    cases success with
    | true =>
      cases h
      exact ⟨hm, .socket⟩
    | false =>
      cases h
      exact ⟨hm, .noSocket⟩
  | binding =>
    rw [step, Option.some_inj] at h
    split at h
    · rename_i m₁ hb
      obtain ⟨hm₁, hnone, rfl⟩ := hm.bind hb
      split at h
      · cases h
        exact ⟨hm₁, .binds hnone⟩
      · cases h
        exact ⟨hm, .noBind⟩
    · cases h
      exact ⟨hm, .noBind⟩
  | working =>
    rw [step] at h
    cases hrole : role t with
    | server =>
      rw [hrole] at h
      change receive t success m = _ at h
      unfold receive at h
      split at h
      · obtain ⟨⟨m₁, u⟩, hr, h⟩ := Option.map_eq_some_iff.1 h
        cases h
        exact ⟨(hm.recvfrom hr).1, .receives hrole hr⟩
      · cases h
        exact ⟨hm, .fails⟩
    | client =>
      rw [hrole] at h
      change some (send t success m) = _ at h
      rw [Option.some_inj, send] at h
      split at h
      · rename_i m₁ hs
        obtain ⟨hm₁, u, hname, hopen, rfl⟩ := hm.sendto hs (fun hs => ha.sent hs)
        split at h
        · cases h
          exact ⟨hm₁, .sends hrole hname hopen⟩
        · cases h
          exact ⟨hm, .fails⟩
      · cases h
        exact ⟨hm, .fails⟩
  | closing done =>
    cases h
    exact ⟨hm.close t, .closes⟩
  | removing done =>
    cases h
    exact ⟨hm.unlink _, .removes⟩
  | ended | failed => cases h

theorem assertion_own (hm : Accounted m) (ha : Assertion role t pc m)
    (h : Does role t m pc m' pc') : Assertion role t pc' m' := by
  cases h with
  | start =>
    refine ⟨fun r hr => ?_, ha.sent, ha.waits, nofun⟩
    exact ha.named r (Net.name_of_unlink hr).2
  | socket => exact ha.goto nofun nofun nofun nofun
  | noSocket => exact ha.goto nofun nofun nofun nofun
  | noBind => exact ha.goto nofun nofun nofun nofun
  | fails => exact ha.goto (fun _ => trivial) nofun (fun _ => trivial) nofun
  | binds hnone =>
    refine ⟨fun r hr => ⟨?_, trivial⟩, fun hs => (ha.sent hs).elim, fun x hx hxt => trivial, nofun⟩
    by_cases hrr : r = role t
    · exact hrr.symm
    · change Function.update m.name (role t) (some t) r = some t at hr
      rw [Function.update_of_ne hrr] at hr
      exact (ha.named r hr).1
  | sends hrole hname hopen =>
    exact ⟨fun r hr => (ha.named r hr), fun _ => trivial, fun _ _ _ => trivial, nofun⟩
  | receives hrole hr =>
    obtain ⟨-, -, hname, -, -, -, hsub⟩ := hm.recvfrom hr
    refine ⟨fun r h => ?_, fun _ => trivial, fun _ _ _ => trivial, nofun⟩
    rw [hname] at h
    exact ha.named r h
  | closes =>
    refine ⟨fun r hr => ha.named r hr, fun _ => trivial, fun x hx hxt => ?_, fun _ => ?_⟩
    · obtain ⟨-, hne⟩ := List.mem_filter.1 hx
      simp [hxt] at hne
    · exact Function.update_self ..
  | removes =>
    refine ⟨fun r hr => ?_, fun _ => trivial, fun x hx hxt => ?_, fun _ => ha.closed trivial⟩
    · obtain ⟨hne, hname⟩ := Net.name_of_unlink hr
      exact absurd (ha.named r hname).1.symm hne
    · exact (ha.waits x hx hxt).elim

theorem assertion_others (hm : Accounted m) (ha : Assertion role t pc m)
    (hu : Assertion role u k m) (hne : u ≠ t) (h : Does role t m pc m' pc') :
    Assertion role u k m' := by
  cases h with
  | start | removes =>
    exact ⟨fun r hr => hu.named r (Net.name_of_unlink hr).2, hu.sent, hu.waits, hu.closed⟩
  | socket | noSocket | noBind | fails => exact hu
  | binds hnone =>
    refine ⟨fun r hr => hu.named r ?_, hu.sent, hu.waits, hu.closed⟩
    change Function.update m.name (role t) (some t) r = some u at hr
    by_cases hrr : r = role t
    · rw [hrr, Function.update_self] at hr
      exact absurd (Option.some_inj.1 hr).symm hne
    · rwa [Function.update_of_ne hrr] at hr
  | sends hrole hname hopen =>
    refine ⟨hu.named, fun hs => ?_, fun x hx hxu => ?_, hu.closed⟩
    · obtain hs | hs := List.mem_append.1 hs
      · exact hu.sent hs
      · exact absurd (List.mem_singleton.1 hs) hne
    · obtain hx | hx := List.mem_append.1 hx
      · exact hu.waits x hx hxu
      · rw [List.mem_singleton] at hx
        subst hx
        cases hxu
        exact hu.open hname hopen
  | receives hrole hr =>
    obtain ⟨-, -, hname, hclosed, hsent, -, hsub⟩ := hm.recvfrom hr
    refine ⟨fun r h => ?_, fun hs => ?_, fun x hx => hu.waits x (hsub x hx), fun hc => ?_⟩
    · rw [hname] at h
      exact hu.named r h
    · rw [hsent] at hs
      exact hu.sent hs
    · rw [hclosed]
      exact hu.closed hc
  | closes =>
    refine ⟨hu.named, hu.sent, fun x hx => hu.waits x (List.mem_filter.1 hx).1, fun hc => ?_⟩
    exact (Function.update_of_ne hne ..).trans (hu.closed hc)

/-- **The proof outline of the two programs.** -/
theorem outline :
    Outline (step role) (fun _ _ _ _ => True) Accounted (Assertion role) where
  own t success m pc m' pc' hm ha _ h := by
    obtain ⟨hm', hdoes⟩ := does_of_step hm ha h
    exact ⟨hm', assertion_own hm ha hdoes⟩
  others t success m pc m' pc' u k hne hm ha hu _ h :=
    assertion_others hm ha hu hne (does_of_step hm ha h).2

omit [DecidableEq T] in
theorem holds_initial (role : T → Role) : Holds Accounted (Assertion role) initial :=
  ⟨accounted_empty, fun _ => ⟨nofun, nofun, nofun, nofun⟩⟩

/-! ### A server without its file -/

/-- A server that waits for nothing, or has received nothing. -/
structure Deaf (t : T) (m : Net T) (pc : Pc T) : Prop where
  unnamed : m.name .server ≠ some t
  empty : ∀ x ∈ m.queue, x.1 ≠ t
  place : pc = .working ∨ pc = .closing none ∨ pc = .removing none ∨ pc = .ended none

theorem deaf_own (hm : Accounted m) (hrole : role t = .server) (hd : Deaf t m pc)
    (h : Does role t m pc m' pc') : Deaf t m' pc' := by
  obtain ⟨hname, hempty, hplace⟩ := hd
  cases h with
  | start | socket | noSocket | noBind | binds => simp at hplace
  | fails => exact ⟨hname, hempty, Or.inr (Or.inl rfl)⟩
  | sends hclient => cases hrole.symm.trans hclient
  | receives _ hr =>
    obtain ⟨-, hmem, -⟩ := hm.recvfrom hr
    exact absurd rfl (hempty _ hmem)
  | @closes done =>
    have hdone : done = none := by simpa using hplace
    subst hdone
    exact ⟨hname, fun x hx => hempty x (List.mem_filter.1 hx).1, Or.inr (Or.inr (Or.inl rfl))⟩
  | @removes done =>
    have hdone : done = none := by simpa using hplace
    subst hdone
    exact ⟨fun h => hname (Net.name_of_unlink h).2, hempty, Or.inr (Or.inr (Or.inr rfl))⟩

theorem deaf_others (hm : Accounted m) (hd : Deaf u m k) (hne : u ≠ t)
    (h : Does role t m pc m' pc') : Deaf u m' k := by
  obtain ⟨hname, hempty, hplace⟩ := hd
  refine ⟨fun hu => ?_, fun x hx hxu => ?_, hplace⟩
  · cases h with
    | start | removes => exact hname (Net.name_of_unlink hu).2
    | socket | noSocket | noBind | fails | sends | closes => exact hname hu
    | binds =>
      change Function.update m.name (role t) (some t) .server = some u at hu
      by_cases hr : Role.server = role t
      · rw [hr, Function.update_self] at hu
        exact hne (Option.some_inj.1 hu).symm
      · rw [Function.update_of_ne hr] at hu
        exact hname hu
    | receives _ hr =>
      rw [(hm.recvfrom hr).2.2.1] at hu
      exact hname hu
  · cases h with
    | start | removes | socket | noSocket | noBind | fails | binds => exact hempty x hx hxu
    | sends _ hserver =>
      obtain hx | hx := List.mem_append.1 hx
      · exact hempty x hx hxu
      · rw [List.mem_singleton] at hx
        subst hx
        exact hname (hserver.trans (congrArg some hxu))
    | receives _ hr =>
      obtain ⟨-, -, -, -, -, -, hsub⟩ := hm.recvfrom hr
      exact hempty x (hsub x hx) hxu
    | closes => exact hempty x (List.mem_filter.1 hx).1 hxu

variable {s s' : State T (Net T) (Pc T)}

/-- **It receives nothing any more.** -/
theorem deaf_run (hs : Holds Accounted (Assertion role) s) (hrole : role t = .server)
    (hd : Deaf t s.mem (s.pc t)) (hr : Reachable (next (step role)) Any s s') :
    Deaf t s'.mem (s'.pc t) := by
  have hboth := hr.invariant (P := fun s => Holds Accounted (Assertion role) s ∧
    Deaf t s.mem (s.pc t)) ⟨hs, hd⟩ (fun v a w hv _ hn => ?_)
  · exact hboth.2
  · obtain ⟨hs, hd⟩ := hv
    refine ⟨outline.keep hs (a := a) trivial hn, ?_⟩
    obtain ⟨m', pc', hstep, rfl⟩ := next_eq_some.1 hn
    obtain ⟨-, hdoes⟩ := does_of_step hs.1 (hs.2 a.1) hstep
    by_cases ht : t = a.1
    · subst ht
      rw [State.move_self]
      exact deaf_own hs.1 hrole hd hdoes
    · rw [State.move_of_ne ht]
      exact deaf_others hs.1 hd ht hdoes

/-! ### The main result -/

/-- **What becomes of the messages and of the files.**  In every state that is reached: each message
that was sent still waits, was received, or was dropped by a server that closed its socket, and is
counted once.  A file that is there is that of a program that has bound it and has not taken
it away; when there is none, no file and no message is left.  And a server that has lost its file,
while no message waits for it, receives none any more. -/
theorem datagrams_accounted (hr : Reachable (next (step role)) Any initial s) :
    (s.mem.sent.Nodup ∧
      s.mem.sent.Perm (s.mem.queue.map Prod.snd ++ (s.mem.received ++ s.mem.dropped))) ∧
    (∀ r t, s.mem.name r = some t → role t = r ∧ (s.pc t).Holds) ∧
    ((∀ t, ¬ (s.pc t).Holds) → s.mem.queue = [] ∧ ∀ r, s.mem.name r = none) ∧
    ∀ t, role t = .server → s.pc t = .working → s.mem.name .server ≠ some t →
      (∀ x ∈ s.mem.queue, x.1 ≠ t) → ∀ s', Reachable (next (step role)) Any s s' →
        ∀ u, s'.pc t ≠ .closing (some u) ∧ s'.pc t ≠ .removing (some u) ∧
          s'.pc t ≠ .ended (some u) := by
  have hs := outline.any (holds_initial role) hr
  obtain ⟨hm, ha⟩ := hs
  refine ⟨⟨hm.nodup, hm.sum⟩, fun r t hname => (ha t).named r hname, fun hnone => ⟨?_, fun r => ?_⟩,
    fun t hrole hpc hname hempty s' hs' u => ?_⟩
  · refine List.eq_nil_iff_forall_not_mem.2 (fun x hx => hnone x.1 ?_)
    have hopen := (ha x.1).waits x hx rfl
    cases hpc : s.pc x.1 <;> rw [hpc] at hopen <;> first | exact hopen.elim | trivial
  · refine Option.eq_none_iff_forall_ne_some.2 (fun t hname => ?_)
    exact hnone t ((ha t).named r hname).2
  · have hdeaf := deaf_run ⟨hm, ha⟩ hrole ⟨hname, hempty, Or.inl hpc⟩ hs'
    obtain h | h | h | h := hdeaf.place <;> rw [h] <;> exact ⟨nofun, nofun, nofun⟩

def twoServers (t : Fin 3) : Role := if t = 2 then .client else .server

/-- A second server takes the file away from the first one, and gets the message. -/
theorem datagrams_accounted_taken : ∃ s s', exec (next (step twoServers)) initial
      (List.replicate 3 (0, true) ++ List.replicate 3 (1, true)) = some s ∧
    exec (next (step twoServers)) s (List.replicate 4 (2, true) ++ [(1, true)]) = some s' ∧
    s'.pc 1 = .closing (some 2) ∧ ∀ u, s'.pc 0 ≠ .closing (some u) := by
  have hr : Run (next (step twoServers)) Any initial
      (List.replicate 3 (0, true) ++ List.replicate 3 (1, true)) _ := exec_run rfl
  obtain ⟨-, -, -, hdeaf⟩ := datagrams_accounted ⟨_, hr⟩
  have hends := hdeaf 0 rfl rfl (by decide) (fun x hx => by cases hx) _
    ⟨List.replicate 4 (2, true) ++ [(1, true)], exec_run rfl⟩
  exact ⟨_, _, rfl, rfl, rfl, fun u => (hends u).1⟩

end EmbeddedLinux.IpcSocket.UnixDgram
