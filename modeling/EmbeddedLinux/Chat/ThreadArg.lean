import EmbeddedLinux.Chat.Address
import EmbeddedLinux.Lib.Heap

/-!
# The argument of a handler thread

The thread that makes a connection allocates a `PeerThreadArg`, stores the descriptor in it, and
hands it to `pthread_create`; the handler reads the descriptor and frees the block.  If
`pthread_create` fails, the maker frees it after its `close`.  In `Threads.lean` all of this is one
step, and a handler has the descriptor of its record from its first step on.  Here the
steps are apart, and the addresses that `malloc` returns are any that are not in use.

A block that is not in use when it is read, written or freed sets `fault`.  It is
never set, no block is lost, and the descriptor that a handler has read is that of
its connection; and what is left when the blocks are forgotten is a run of `Threads.lean`
(`thread_args_handed_over`).  So the one step there stands for the many here.
-/

namespace EmbeddedLinux.Chat

open CString Heap Transition

/-- Who may have a pointer to a block: the local `thread_arg` of a maker, or the argument of a
handler. -/
inductive Holder
  | creator (t : Creator)
  | handler (c : ConnId)
  deriving DecidableEq

theorem Holder.handler_ne (c : ConnId) (t : Creator) : Holder.handler c ≠ .creator t := by simp

/-- `app` is the same in all blocks, and left out. -/
structure PeerThreadArg where
  sockfd : Int

structure ArgState where
  base : State
  heap : Cells PeerThreadArg
  ptr : Holder → Option Nat
  /-- `thread_arg->sockfd` has been stored -/
  stored : Creator → Bool
  /-- the local `sockfd` of a handler, once it has read it -/
  sockfd : ConnId → Option Int
  fault : Bool

inductive ArgAction
  /-- `malloc` returns NULL, or an address and what has been in the block -/
  | malloc (t : Creator) (c : ConnId) (r : Option (Nat × PeerThreadArg))
  | store (t : Creator) (c : ConnId)
  | create (t : Creator) (c : ConnId) (ok : Bool)
  /-- `free(thread_arg)` by the maker -/
  | free (t : Creator)
  /-- the first statements of `peer_handle_thread` -/
  | start (c : ConnId)
  | other (a : Action)

/-- The thread of the action, if it makes connections. -/
def Action.creator : Action → Option Creator
  | .spawn t _ _ | .failClose t _ | .addPeer t _ | .refuseClose t _ | .refuseCancel t _ => some t
  | .socket _ _ _ | .dial _ _ | .listPeers | .sendMessage _ _ | .disconnectPeer _ | .stop
  | .closeListener | .join | .closeAll | .destroy => some .main
  | .check | .callAccept | .accept _ _ _ => some .listener
  | _ => none

/-- The handler of the action. -/
def Action.handler : Action → Option ConnId
  | .recv c _ | .display c | .announce c | .deregister c | .loopClose c | .cleanupClose c
  | .cancelled c => some c
  | _ => none

/-- The maker `t` is at `malloc` and `pthread_create`, for `c`. -/
def Spawning (s : State) (t : Creator) (c : ConnId) : Prop :=
  s.creating t = some c ∧ (s.conn c).stage = .spawning

instance (s : State) (t : Creator) (c : ConnId) : Decidable (Spawning s t c) :=
  inferInstanceAs (Decidable (_ ∧ _))

/-- The action is one of `Threads.lean` other than the one that is taken apart, its thread has no
`free` left to do, and its handler has been started. -/
def Free (s : ArgState) : Action → Prop
  | .spawn _ _ _ => False
  | .failClose _ _ => True
  | a => (∀ t ∈ a.creator, s.ptr (.creator t) = none) ∧ ∀ c ∈ a.handler, (s.sockfd c).isSome = true

instance (s : ArgState) : (a : Action) → Decidable (Free s a)
  | .spawn _ _ _ => instDecidableFalse
  | .failClose _ _ => instDecidableTrue
  | .socket _ _ _ | .dial _ _ | .addPeer _ _ | .refuseClose _ _ | .refuseCancel _ _ | .listPeers
  | .sendMessage _ _ | .disconnectPeer _ | .stop | .closeListener | .join | .closeAll | .destroy
  | .check | .callAccept | .accept _ _ _ | .recv _ _ | .display _ | .announce _ | .deregister _
  | .loopClose _ | .cleanupClose _ | .cancelled _ => inferInstanceAs (Decidable (_ ∧ _))

def ArgEnabled (s : ArgState) : ArgAction → Prop
  | .malloc t c r => Spawning s.base t c ∧ s.ptr (.creator t) = none ∧
      ∀ x ∈ r, (s.heap x.1).isNone = true
  | .store t c => Spawning s.base t c ∧ (s.ptr (.creator t)).isSome = true ∧ s.stored t = false
  | .create t c _ => Spawning s.base t c ∧ (s.ptr (.creator t)).isSome = true ∧ s.stored t = true
  | .free t => s.base.creating t = none ∧ (s.ptr (.creator t)).isSome = true
  | .start c => (s.ptr (.handler c)).isSome = true
  | .other a => Enabled s.base a ∧ Free s a

instance (s : ArgState) : (a : ArgAction) → Decidable (ArgEnabled s a)
  | .malloc _ _ _ | .store _ _ | .create _ _ _ | .free _ | .other _ =>
    inferInstanceAs (Decidable (_ ∧ _))
  | .start _ => inferInstanceAs (Decidable (_ = _))

namespace ArgState

/-- `thread_arg->sockfd = ...` -/
def storeArg (s : ArgState) (t : Creator) (c : ConnId) : ArgState :=
  match s.ptr (.creator t) with
  | none => { s with fault := true }
  | some p =>
    if (s.heap p).isNone then { s with fault := true }
    else { s with
      heap := Function.update s.heap p (some { sockfd := s.base.sockfd c })
      stored := Function.update s.stored t true }

/-- `free`, by `x`. -/
def freeArg (s : ArgState) (x : Holder) : ArgState :=
  match s.ptr x with
  | none => { s with fault := true }
  | some p =>
    if (s.heap p).isNone then { s with fault := true }
    else { s with heap := Function.update s.heap p none, ptr := Function.update s.ptr x none }

/-- `int sockfd = thread_arg->sockfd;` -/
def loadArg (s : ArgState) (c : ConnId) : ArgState :=
  match (s.ptr (.handler c)).bind s.heap with
  | none => { s with fault := true }
  | some arg => { s with sockfd := Function.update s.sockfd c (some arg.sockfd) }

end ArgState

def argEffect (s : ArgState) : ArgAction → ArgState
  | .malloc t c none => { s with base := effect s.base (.spawn t c false) }
  | .malloc t _ (some (p, junk)) =>
    { s with
      heap := Function.update s.heap p (some junk)
      ptr := Function.update s.ptr (.creator t) (some p)
      stored := Function.update s.stored t false }
  | .store t c => s.storeArg t c
  | .create t c true =>
    { s with
      base := effect s.base (.spawn t c true)
      ptr := Function.update (Function.update s.ptr (.creator t) none) (.handler c)
        (s.ptr (.creator t)) }
  | .create t c false => { s with base := effect s.base (.spawn t c false) }
  | .free t => s.freeArg (.creator t)
  | .start c => (s.loadArg c).freeArg (.handler c)
  | .other a => { s with base := effect s.base a }

def argStep (s : ArgState) (a : ArgAction) : Option ArgState :=
  if ArgEnabled s a then some (argEffect s a) else none

theorem argStep_eq_some {s t : ArgState} {a : ArgAction} :
    argStep s a = some t ↔ ArgEnabled s a ∧ argEffect s a = t := by
  rw [argStep, Option.ite_none_right_eq_some, Option.some_inj]

def argInitial (port : Int) (fd : Nat) (inherited : Int → Bool) : ArgState :=
  { base := initial port fd inherited
    heap := fun _ => none
    ptr := fun _ => none
    stored := fun _ => false
    sockfd := fun _ => none
    fault := false }

/-! ### The step that is taken apart -/

variable {s s' : ArgState} {a : ArgAction}

namespace ArgState

@[simp] theorem storeArg_base (s : ArgState) (t : Creator) (c : ConnId) :
    (s.storeArg t c).base = s.base := by
  unfold storeArg
  split
  · rfl
  · split <;> rfl

@[simp] theorem freeArg_base (s : ArgState) (x : Holder) : (s.freeArg x).base = s.base := by
  unfold freeArg
  split
  · rfl
  · split <;> rfl

@[simp] theorem loadArg_base (s : ArgState) (c : ConnId) : (s.loadArg c).base = s.base := by
  unfold loadArg
  split <;> rfl

end ArgState

/-- A step is one of `Threads.lean`, or changes nothing there. -/
theorem argEffect_base (he : ArgEnabled s a) : (argEffect s a).base = s.base ∨
    ∃ a', Enabled s.base a' ∧ (argEffect s a).base = effect s.base a' := by
  cases a with
  | malloc t c r =>
    cases r with
    | none => exact Or.inr ⟨.spawn t c false, he.1, rfl⟩
    | some r => exact Or.inl rfl
  | create t c ok =>
    cases ok with
    | true => exact Or.inr ⟨.spawn t c true, he.1, rfl⟩
    | false => exact Or.inr ⟨.spawn t c false, he.1, rfl⟩
  | other a => exact Or.inr ⟨a, he.1, rfl⟩
  | store t c | free t | start c => exact Or.inl (by simp [argEffect])

/-! ### The invariant -/

structure HandedOver (s : ArgState) : Prop where
  accounted : Accounted s.heap s.ptr
  sound : s.fault = false
  stored : ∀ t c p, s.ptr (.creator t) = some p → s.stored t = true → Spawning s.base t c →
    s.heap p = some { sockfd := s.base.sockfd c }
  given : ∀ c p, s.ptr (.handler c) = some p → s.heap p = some { sockfd := s.base.sockfd c }
  started : ∀ c fd, s.sockfd c = some fd → fd = s.base.sockfd c
  unborn : ∀ c, s.base.conns ≤ c ∨ (s.base.conn c).stage.early = true →
    s.ptr (.handler c) = none ∧ s.sockfd c = none

/-- A connection that is at an early stage after a step was so before. -/
theorem early_effect {s : State} {a : Action} (he : Enabled s a) {c : ConnId} (hc : c < s.conns)
    (h : ((effect s a).conn c).stage.early = true) : (s.conn c).stage.early = true := by
  by_cases hmakes : a.makes = some c
  · cases a with
    | dial c' ok =>
      cases hmakes
      rw [he.2]
      rfl
    | spawn t c' ok =>
      cases hmakes
      rw [he.2]
      rfl
    | failClose t c' =>
      cases hmakes
      rw [he.2]
      rfl
    | addPeer t c' =>
      cases hmakes
      have hstage : ((s.register c).conn c).stage = .refused ∨
          ((s.register c).conn c).stage = .done := by
        rw [World.register]
        split
        · rw [World.setStage, World.setConn_self]
          exact Or.inl rfl
        · rw [World.setConn_self]
          exact Or.inr rfl
      have hsame : ((effect s (.addPeer t c)).conn c) = (s.register c).conn c := by
        show (ite _ _ _ : State).toWorld.conn c = _
        split
        · rfl
        · rw [State.leave_toWorld]
      rw [hsame] at h
      rcases hstage with hst | hst <;> rw [hst] at h <;> cases h
    | refuseClose t c' =>
      cases hmakes
      change ((World.setStage _ c _).conn c).stage.early = true at h
      rw [World.setStage, World.setConn_self] at h
      cases h
    | refuseCancel t c' =>
      cases hmakes
      change ((State.leave _ t).toWorld.conn c).stage.early = true at h
      rw [State.leave_toWorld, World.setStage, World.setConn_self] at h
      cases h
    | _ => cases hmakes
  · rw [(frame_effect s a a.makes rfl).stage c hc hmakes] at h
    exact h

/-- A thread that works on a connection is the one of the action. -/
theorem creator_of_makes {s : State} {a : Action} (he : Enabled s a) {c : ConnId}
    (hmakes : a.makes = some c) : ∃ t, a.creator = some t ∧ s.creating t = some c := by
  cases a with
  | dial c' ok =>
    cases hmakes
    exact ⟨.main, rfl, creating_main.2 he.1⟩
  | spawn t c' ok | failClose t c' | addPeer t c' | refuseClose t c' | refuseCancel t c' =>
    cases hmakes
    exact ⟨t, rfl, he.1⟩
  | _ => cases hmakes

/-- Another thread does not bring a maker to its `malloc`. -/
theorem spawning_effect {s : State} {a : Action} (hs : Ordered s) (he : Enabled s a) {t : Creator}
    {c : ConnId} (ht : a.creator ≠ some t) (h : Spawning (effect s a) t c) : Spawning s t c := by
  obtain ⟨hcreating, hstage⟩ := h
  rcases Ordered.creating_effect he hcreating with hold | ⟨-, hnew⟩
  · refine ⟨hold, ?_⟩
    by_cases hmakes : a.makes = some c
    · obtain ⟨t', ht', hold'⟩ := creator_of_makes he hmakes
      rw [hs.creator_unique hold' hold] at ht'
      exact absurd ht' ht
    · rw [← (frame_effect s a a.makes rfl).stage c (hs.making t c hold).1 hmakes]
      exact hstage
  · rcases hnew with ⟨ip, port, fd, rfl, rfl⟩ | ⟨ip, port, fd, rfl, rfl⟩
    · exact absurd rfl ht
    · exact absurd rfl ht

/-- Behind `pthread_create` the maker is no longer there. -/
theorem not_spawning_spawn {s : State} {t : Creator} {c c' : ConnId} (hc : Spawning s t c)
    (ok : Bool) : ¬ Spawning (effect s (.spawn t c ok)) t c' := by
  rintro ⟨hcreating, hstage⟩
  have hsame : (effect s (.spawn t c ok)).creating t = s.creating t := by
    cases ok <;> cases t <;> rfl
  rw [hsame, hc.1] at hcreating
  cases hcreating
  cases ok with
  | true =>
    rw [show ((effect s (.spawn t c true)).conn c).stage = .adding from
      congrArg Conn.stage (World.setConn_self s.toWorld c _)] at hstage
    cases hstage
  | false =>
    rw [show ((effect s (.spawn t c false)).conn c).stage = .failing from
      congrArg Conn.stage (World.setConn_self s.toWorld c _)] at hstage
    cases hstage

theorem effect_sockfd (s : State) (a : Action) {c : ConnId} (hc : c < s.conns) :
    (effect s a).sockfd c = s.sockfd c :=
  (Prod.mk.inj (effect_origin s a hc)).1

namespace HandedOver

variable {t : Creator} {c : ConnId} {p : Nat}

theorem lt_conns (h : HandedOver s) (hc : s.ptr (.handler c) ≠ none ∨ s.sockfd c ≠ none) :
    c < s.base.conns := by
  by_contra hle
  obtain ⟨hptr, hsockfd⟩ := h.unborn c (Or.inl (Nat.le_of_not_lt hle))
  rcases hc with hc | hc
  · exact hc hptr
  · exact hc hsockfd

/-- A step of `Threads.lean` that brings no maker with a block to its `malloc`. -/
theorem base (h : HandedOver s) (hs : Ordered s.base) {b : Action} (hb : Enabled s.base b)
    (hspawning : ∀ t c, s.ptr (.creator t) ≠ none → Spawning (effect s.base b) t c →
      Spawning s.base t c) : HandedOver { s with base := effect s.base b } := by
  refine ⟨h.accounted, h.sound, fun t c p hptr hstored hsp => ?_, fun c p hptr => ?_,
    fun c fd hfd => ?_, fun c hc => ?_⟩
  · have hold := hspawning t c (by rw [hptr]; simp) hsp
    rw [effect_sockfd s.base b (hs.making t c hold.1).1]
    exact h.stored t c p hptr hstored hold
  · rw [effect_sockfd s.base b (h.lt_conns (Or.inl (by rw [hptr]; simp)))]
    exact h.given c p hptr
  · rw [effect_sockfd s.base b (h.lt_conns (Or.inr (by rw [hfd]; simp)))]
    exact h.started c fd hfd
  · by_cases hlt : c < s.base.conns
    · rcases hc with hle | hearly
      · exact absurd ((frame_effect s.base b _ rfl).conns.trans hle) (Nat.not_le_of_lt hlt)
      · exact h.unborn c (Or.inr (early_effect hb hlt hearly))
    · exact h.unborn c (Or.inl (Nat.le_of_not_lt hlt))

/-- A block that nobody has holds nothing of the others. -/
theorem malloc (h : HandedOver s) (hp : s.heap p = none) (ht : s.ptr (.creator t) = none)
    (junk : PeerThreadArg) : HandedOver { s with
      heap := Function.update s.heap p (some junk)
      ptr := Function.update s.ptr (.creator t) (some p)
      stored := Function.update s.stored t false } := by
  have hother : ∀ x q, s.ptr x = some q → Function.update s.heap p (some junk) q = s.heap q := by
    intro x q hx
    apply Function.update_of_ne
    rintro rfl
    exact h.accounted.live x q hx hp
  refine ⟨h.accounted.malloc hp ht junk, h.sound, fun t' c q hptr hstored hsp => ?_,
    fun c q hptr => ?_, h.started, fun c hc => ?_⟩
  · have hne : t' ≠ t := by
      rintro rfl
      simp only [Function.update_self] at hstored
      cases hstored
    simp only [Function.update_of_ne hne] at hstored
    have hold : s.ptr (.creator t') = some q :=
      (Function.update_of_ne (fun e => hne (Holder.creator.inj e)) _ _).symm.trans hptr
    exact (hother _ q hold).trans (h.stored t' c q hold hstored hsp)
  · have hold : s.ptr (.handler c) = some q := by
      rw [← Function.update_of_ne (Holder.handler_ne c t) (some p) s.ptr]
      exact hptr
    exact (hother _ q hold).trans (h.given c q hold)
  · obtain ⟨hptr, hsockfd⟩ := h.unborn c hc
    refine ⟨?_, hsockfd⟩
    rw [← hptr]
    exact Function.update_of_ne (Holder.handler_ne c t) (some p) s.ptr

theorem storeArg (h : HandedOver s) (hc : Spawning s.base t c)
    (ht : (s.ptr (.creator t)).isSome = true) : HandedOver (s.storeArg t c) := by
  obtain ⟨p, hp⟩ := Option.isSome_iff_exists.1 ht
  have hlive := h.accounted.live _ p hp
  simp only [ArgState.storeArg, hp, Option.isNone_iff_eq_none, if_neg hlive]
  refine ⟨h.accounted.store hlive _, h.sound, fun t' c' q hptr hstored hsp => ?_,
    fun c' q hptr => ?_, h.started, h.unborn⟩
  · by_cases hne : t' = t
    · subst hne
      have hcc : c' = c := Option.some_inj.1 (hsp.1.symm.trans hc.1)
      have hqp : q = p := Option.some_inj.1 (hptr.symm.trans hp)
      rw [hcc, hqp]
      exact Function.update_self ..
    · simp only [Function.update_of_ne hne] at hstored
      exact (h.accounted.other hp hptr (fun e => hne (Holder.creator.inj e)) _).trans
        (h.stored t' c' q hptr hstored hsp)
  · exact (h.accounted.other hp hptr (fun e => by cases e) _).trans (h.given c' q hptr)

theorem freeArg (h : HandedOver s) {x : Holder} (hx : (s.ptr x).isSome = true) :
    HandedOver (s.freeArg x) := by
  obtain ⟨p, hp⟩ := Option.isSome_iff_exists.1 hx
  have hlive := h.accounted.live _ p hp
  simp only [ArgState.freeArg, hp, Option.isNone_iff_eq_none, if_neg hlive]
  have hold : ∀ y q, Function.update s.ptr x none y = some q → y ≠ x ∧ s.ptr y = some q := by
    intro y q hy
    rw [Function.update_apply] at hy
    split at hy
    · cases hy
    · exact ⟨‹_›, hy⟩
  refine ⟨h.accounted.free hp, h.sound, fun t' c q hptr hstored hsp => ?_, fun c q hptr => ?_,
    h.started, fun c hc => ⟨?_, (h.unborn c hc).2⟩⟩
  · obtain ⟨hne, hptr⟩ := hold _ q hptr
    exact (h.accounted.other hp hptr hne _).trans (h.stored t' c q hptr hstored hsp)
  · obtain ⟨hne, hptr⟩ := hold _ q hptr
    exact (h.accounted.other hp hptr hne _).trans (h.given c q hptr)
  · show Function.update s.ptr x none (.handler c) = none
    rw [Function.update_apply]
    split
    · rfl
    · exact (h.unborn c hc).1

/-- What a handler reads is the descriptor of its connection. -/
theorem loadArg (h : HandedOver s) (hc : (s.ptr (.handler c)).isSome = true) :
    HandedOver (s.loadArg c) := by
  obtain ⟨p, hp⟩ := Option.isSome_iff_exists.1 hc
  have hload : (s.ptr (.handler c)).bind s.heap = some { sockfd := s.base.sockfd c } := by
    rw [hp, Option.bind_some]
    exact h.given c p hp
  simp only [ArgState.loadArg, hload]
  refine ⟨h.accounted, h.sound, h.stored, h.given, fun c' fd hfd => ?_, fun c' hc' => ?_⟩
  · simp only [Function.update_apply] at hfd
    split at hfd
    · rename_i hcc
      cases hfd
      rw [hcc]
    · exact h.started c' fd hfd
  · obtain ⟨hptr, hsockfd⟩ := h.unborn c' hc'
    have hne : c' ≠ c := by
      rintro rfl
      rw [hp] at hptr
      cases hptr
    exact ⟨hptr, (Function.update_of_ne hne _ _).trans hsockfd⟩

/-- The block goes to the handler. -/
theorem give (h : HandedOver s) (hp : s.ptr (.creator t) = some p)
    (hblock : s.heap p = some { sockfd := s.base.sockfd c }) (hfree : s.ptr (.handler c) = none)
    (hborn : ¬ (s.base.conns ≤ c ∨ (s.base.conn c).stage.early = true)) : HandedOver { s with
      ptr := Function.update (Function.update s.ptr (.creator t) none) (.handler c) (some p) } := by
  refine ⟨h.accounted.give hp hfree, h.sound, fun t' c' q hptr hstored hsp => ?_,
    fun c' q hptr => ?_, h.started, fun c' hc' => ⟨?_, (h.unborn c' hc').2⟩⟩
  · simp only [Function.update_apply] at hptr
    rw [if_neg (Holder.handler_ne c t').symm] at hptr
    split at hptr
    · cases hptr
    · exact h.stored t' c' q hptr hstored hsp
  · simp only [Function.update_apply] at hptr
    split at hptr
    · rename_i hcc
      cases hptr
      rw [Holder.handler.inj hcc]
      exact hblock
    · rw [if_neg (by simp)] at hptr
      exact h.given c' q hptr
  · have hne : c' ≠ c := fun e => hborn (e ▸ hc')
    have hold := (h.unborn c' hc').1
    simp only [Function.update_apply]
    rw [if_neg (fun e => hne (Holder.handler.inj e)), if_neg (by simp)]
    exact hold

/-- A step keeps it. -/
theorem step (h : HandedOver s) (hs : Ordered s.base) (he : ArgEnabled s a) :
    HandedOver (argEffect s a) := by
  cases a with
  | malloc t c r =>
    obtain ⟨hc, hptr, hfresh⟩ := he
    cases r with
    | none =>
      refine h.base hs (b := .spawn t c false) hc (fun t' c' hptr' hsp => ?_)
      refine spawning_effect hs (a := .spawn t c false) hc (fun e => ?_) hsp
      cases e
      exact hptr' hptr
    | some r => exact h.malloc (Option.isNone_iff_eq_none.1 (hfresh r rfl)) hptr r.2
  | store t c => exact h.storeArg he.1 he.2.1
  | create t c ok =>
    obtain ⟨hc, hptr, hstored⟩ := he
    have hb : ∀ ok, HandedOver { s with base := effect s.base (.spawn t c ok) } := by
      intro ok
      refine h.base hs (b := .spawn t c ok) hc (fun t' c' _ hsp => ?_)
      by_cases ht : t' = t
      · subst ht
        exact absurd hsp (not_spawning_spawn hc ok)
      · exact spawning_effect hs (a := .spawn t c ok) hc
          (fun e => ht (Option.some_inj.1 e).symm) hsp
    cases ok with
    | false => exact hb false
    | true =>
      obtain ⟨p, hp⟩ := Option.isSome_iff_exists.1 hptr
      have hlt := (hs.making t c hc.1).1
      have hearly : (s.base.conn c).stage.early = true := by
        rw [hc.2]
        rfl
      have hborn : ¬ ((effect s.base (.spawn t c true)).conns ≤ c ∨
          ((effect s.base (.spawn t c true)).conn c).stage.early = true) := by
        rw [show (effect s.base (.spawn t c true)).conns = s.base.conns from rfl,
          show ((effect s.base (.spawn t c true)).conn c).stage = .adding from
            congrArg Conn.stage (World.setConn_self s.base.toWorld c _)]
        rintro (hle | hst)
        · exact absurd hlt (Nat.not_lt_of_le hle)
        · cases hst
      have hgive := (hb true).give (c := c) hp
        ((h.stored t c p hp hstored hc).trans (by
          rw [effect_sockfd s.base (.spawn t c true) hlt]))
        (h.unborn c (Or.inr hearly)).1 hborn
      show HandedOver { s with
        base := effect s.base (.spawn t c true)
        ptr := Function.update (Function.update s.ptr (.creator t) none) (.handler c)
          (s.ptr (.creator t)) }
      rw [hp]
      exact hgive
  | free t => exact h.freeArg he.2
  | start c =>
    refine (h.loadArg he).freeArg ?_
    unfold ArgState.loadArg
    split <;> exact he
  | other b =>
    obtain ⟨hb, hfree⟩ := he
    refine h.base hs hb (fun t c hptr hsp => ?_)
    by_cases hclose : ∃ t' c', b = .failClose t' c'
    · obtain ⟨t', c', rfl⟩ := hclose
      by_cases ht : t' = t
      · subst ht
        have hnone : (effect s.base (.failClose t' c')).creating t' = none :=
          Ordered.leave_creating _ t'
        rw [Spawning, hnone] at hsp
        cases hsp.1
      · exact spawning_effect hs hb (fun e => ht (Option.some_inj.1 e)) hsp
    · refine spawning_effect hs hb (fun e => ?_) hsp
      cases b with
      | spawn t' c' ok => exact hfree
      | failClose t' c' => exact hclose ⟨t', c', rfl⟩
      | _ => exact hptr (hfree.1 t e)

theorem initial (port : Int) (fd : Nat) (inherited : Int → Bool) :
    HandedOver (argInitial port fd inherited) :=
  ⟨accounted_empty, rfl, fun t c p hp => (by cases hp), fun c p hp => (by cases hp),
    fun c fd hfd => (by cases hfd), fun c _ => ⟨rfl, rfl⟩⟩

/-- **The blocks forgotten**, a run is one of `Threads.lean`, and each state of it has its blocks
in order. -/
theorem run {port : Int} {fd : Nat} {inherited : Int → Bool}
    (hr : Reachable argStep Any (argInitial port fd inherited) s) :
    Reachable Chat.step Any (Chat.initial port fd inherited) s.base ∧ HandedOver s := by
  refine hr.invariant (P := fun s => Reachable Chat.step Any (Chat.initial port fd inherited)
    s.base ∧ HandedOver s) ⟨.refl _, initial port fd inherited⟩ (fun t a u ht _ hn => ?_)
  obtain ⟨he, rfl⟩ := argStep_eq_some.1 hn
  refine ⟨?_, ht.2.step (Ordered.run ht.1) he⟩
  rcases argEffect_base he with hsame | ⟨a', he', hstep⟩
  · rw [hsame]
    exact ht.1
  · rw [hstep]
    exact ht.1.step trivial (step_eq_some.2 ⟨he', rfl⟩)

end HandedOver

/-! ### The main result -/

/-- **Each handler gets its own descriptor.**  In every interleaving no block is used after it was
freed or freed twice, each block in use has one owner, who is still to free it, a handler
has read the descriptor of its connection, and the rest of the state is reached in
`Threads.lean` too. -/
theorem thread_args_handed_over {port : Int} {fd : Nat} {inherited : Int → Bool}
    (hr : Reachable argStep Any (argInitial port fd inherited) s) :
    s.fault = false ∧
      (∀ p, s.heap p ≠ none → ∃ x, s.ptr x = some p ∧ ∀ y, s.ptr y = some p → y = x) ∧
      (∀ c fd, s.sockfd c = some fd → fd = s.base.sockfd c) ∧
      Reachable step Any (initial port fd inherited) s.base := by
  obtain ⟨hbase, h⟩ := HandedOver.run hr
  refine ⟨h.sound, fun p hp => ?_, h.started, hbase⟩
  obtain ⟨x, hx⟩ := h.accounted.held p hp
  exact ⟨x, hx, fun y hy => h.accounted.apart y x p hy hx⟩

/-- `listen_thread` takes connection `c` as `fd`, whose handler gets its argument at address 100. -/
def acceptAt100 (c : ConnId) (fd : Int) : List ArgAction :=
  [.other .check, .other .callAccept, .other (.accept (text "10.0.0.2") 5000 (some fd)),
    .malloc .listener c (some (100, ⟨7⟩)), .store .listener c, .create .listener c true, .start c,
    .other (.addPeer .listener c)]

/-- Two connections, one after the other, whose handlers get the same block. -/
theorem thread_args_handed_over_two :
    ∃ s, exec argStep (argInitial 4000 3 stdio) (acceptAt100 0 4 ++ acceptAt100 1 5) = some s ∧
      s.fault = false ∧ s.base.sockfd 0 = 4 ∧ s.base.sockfd 1 = 5 := by
  have hr : Reachable argStep Any (argInitial 4000 3 stdio) _ :=
    ⟨acceptAt100 0 4 ++ acceptAt100 1 5, exec_run rfl⟩
  refine ⟨_, rfl, ?_⟩
  obtain ⟨hfault, -, hread, -⟩ := thread_args_handed_over hr
  exact ⟨hfault, (hread 0 4 rfl).symm, (hread 1 5 rfl).symm⟩

end EmbeddedLinux.Chat
