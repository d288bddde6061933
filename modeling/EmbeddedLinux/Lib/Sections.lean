import EmbeddedLinux.Lib.Locking

/-!
# Locked sections as single steps

The lock protects a part of the memory, `view mem`: a statement that does not need the lock leaves
that part as it is (`Guards`).  `Ends` is about one section, run by itself: what it finds at
its `lock`, and what it has made of it at its `unlock`, which it gets to because no statement
in it has to wait (`CanEnd`).  `next` says what the sections are meant to do, each in one step, and
`Follows` says that those of a program do that, or change nothing.

Then the same is true of the whole machine, in any interleaving (`Serial.reachable`): while the
lock is free, the protected part is what a run of `next` leaves, and while a thread is in
a section, it can go on from there by itself to the end of the section (`Serial.completes`).
-/

namespace Locking

open Transition

variable {S : Type*} {Res : S → Type} {L T M E A O : Type}

/-- What does not need the lock leaves the protected part of the memory as it is. -/
def Guards (m : Machine S Res L T M E) (d : Discipline S L T) (view : M → A) : Prop :=
  ∀ x e mem r mem', d.needs x = false → m.exec x e mem = some (r, mem') → view mem' = view mem

/-- The statement waits for no thread and starts none, and can end whatever the memory is. -/
structure CanEnd (m : Machine S Res L T M E) (x : S) : Prop where
  awaits : m.awaits x = none
  starts : ∀ r, m.starts x r = none
  exec : ∀ mem, ∃ e r mem', m.exec x e mem = some (r, mem')

section Ends

variable (m : Machine S Res L T M E) (view : M → A)

/-- A program within a section that finds `a`: it gets to its `unlock`, and `Q` holds there of
what it has made of `a` and of the program that follows. -/
def Ends (Q : A → Prog S Res L → Prop) : A → Prog S Res L → Prop
  | a, .unlock k => Q a k
  | a, .stmt x k => CanEnd m x ∧ ∀ e mem r mem', view mem = a →
      m.exec x e mem = some (r, mem') → Ends Q (view mem') (k r)
  | _, _ => False

/-- A program that begins with a section, whatever this finds. -/
def Section (Q : A → A → Prog S Res L → Prop) : Prog S Res L → Prop
  | .lock k => ∀ a, Ends m view (Q a) a k
  | _ => False

variable {m view} {d : Discipline S L T} {Q : A → Prog S Res L → Prop} {a : A}

/-- A statement within a section that does not need the lock. -/
theorem Guards.ends (hg : Guards m d view) {x : S} (hx : d.needs x = false) (hend : CanEnd m x)
    {k : Res x → Prog S Res L} (hk : ∀ r, Ends m view Q a (k r)) :
    Ends m view Q a (.stmt x k) := by
  refine ⟨hend, fun e mem r mem' hmem hexec => ?_⟩
  rw [hg x e mem r mem' hx hexec, hmem]
  exact hk r

/-- The rule of a loop that leaves the protected part as it is. -/
theorem ends_forEach {B : Type} {body : B → Prog S Res L → Prog S Res L}
    (hbody : ∀ b k, Ends m view Q a k → Ends m view Q a (body b k)) {k : Prog S Res L}
    (hk : Ends m view Q a k) (bs : List B) : Ends m view Q a (Prog.forEach body bs k) := by
  induction bs with
  | nil => exact hk
  | cons b bs ih => exact hbody b _ ih

end Ends

section Follows

variable (m : Machine S Res L T M E) (view : M → A) (next : A → O → Option A)

/-- Every section of a program is a step of `next`, or changes nothing.  Outside a section the
first argument is `none`; within one it is what was there at the `lock`, and what is there
now. -/
def Follows : Option (A × A) → Prog S Res L → Prop
  | none, .lock k => ∀ a, Follows (some (a, a)) k
  | some (a₀, a), .unlock k => (a = a₀ ∨ ∃ o, next a₀ o = some a) ∧ Follows none k
  | none, .stmt _ k => ∀ r, Follows none (k r)
  | some (a₀, a), .stmt x k => CanEnd m x ∧ ∀ e mem r mem', view mem = a →
      m.exec x e mem = some (r, mem') → Follows (some (a₀, view mem')) (k r)
  | none, .push _ k | none, .pop k => Follows none k
  | none, .goto _ | none, .exit => True
  | _, _ => False

variable {m view next}

/-- What is known of a section by itself. -/
theorem Ends.follows {Q : A → Prog S Res L → Prop} {a₀ a : A} {p : Prog S Res L}
    (h : Ends m view Q a p)
    (hQ : ∀ a k, Q a k → (a = a₀ ∨ ∃ o, next a₀ o = some a) ∧ Follows m view next none k) :
    Follows m view next (some (a₀, a)) p := by
  induction p generalizing a with
  | unlock k => exact hQ a k h
  | stmt x k ih =>
    exact ⟨h.1, fun e mem r mem' hmem hexec => ih r (h.2 e mem r mem' hmem hexec)⟩
  | lock _ | push _ _ | pop _ | goto _ | exit => cases h

theorem Section.follows {Q : A → A → Prog S Res L → Prop} {p : Prog S Res L}
    (h : Section m view Q p)
    (hQ : ∀ a₀ a k, Q a₀ a k → (a = a₀ ∨ ∃ o, next a₀ o = some a) ∧ Follows m view next none k) :
    Follows m view next none p := by
  cases p with
  | lock k => exact fun a => (h a).follows (hQ a)
  | unlock _ | stmt _ _ | push _ _ | pop _ | goto _ | exit => cases h

/-- Statements outside a section. -/
theorem follows_seq (xs : List S) {k : Prog S Res L} (hk : Follows m view next none k) :
    Follows m view next none (Prog.seq xs k) := by
  induction xs with
  | nil => exact hk
  | cons x xs ih => exact fun _ => ih

end Follows

section Serial

variable (m : Machine S Res L T M E) (view : M → A) (next : A → O → Option A) [DecidableEq T]

/-- The part of the memory that the lock protects is `a`, or what the section of the owner has
made of `a` so far; and all threads go on with sections that are steps of `next`. -/
structure Serial (s : State S Res L T M) (a : A) : Prop where
  threads : ∀ t th, s.threads t = some th →
    Follows m view next (if s.owner = some t then some (a, view s.mem) else none) th.prog
  free : s.owner = none → view s.mem = a

variable {m view next} {d : Discipline S L T} {s s' : State S Res L T M} {a : A} {t : T}
  {th th' : Thread S Res L}

/-- A thread moves, or is started, and leaves the lock as it is; only the owner changes what the
lock protects. -/
theorem Serial.move (hs : Serial m view next s a) {mem : M}
    (hview : s.owner ≠ some t → view mem = view s.mem)
    (h' : Follows m view next (if s.owner = some t then some (a, view mem) else none) th'.prog) :
    Serial m view next ({ s with mem := mem }.setThread t th') a := by
  refine ⟨?_, ?_⟩
  · refine State.forall_setThread h' (fun u uh hut hu => ?_)
    have h := hs.threads u uh hu
    by_cases hown : s.owner = some u
    · have hne : s.owner ≠ some t := fun e => hut (Option.some_inj.1 (hown.symm.trans e))
      rw [if_pos hown, ← hview hne] at h
      rw [State.setThread_owner, if_pos hown]
      exact h
    · rw [if_neg hown] at h
      rw [State.setThread_owner, if_neg hown]
      exact h
  · intro hfree
    rw [State.setThread_owner] at hfree
    have hne : s.owner ≠ some t := fun e => by
      rw [hfree] at e
      cases e
    exact (hview hne).trans (hs.free hfree)

/-- The lock is taken or released by `t`, and no other thread has been or is its owner. -/
theorem Serial.turn (hs : Serial m view next s a) {owner : Option T} {log : List (T × Event)}
    {a' : A} (hothers : ∀ u, u ≠ t → s.owner ≠ some u ∧ owner ≠ some u)
    (h' : Follows m view next (if owner = some t then some (a', view s.mem) else none) th'.prog)
    (hfree : owner = none → view s.mem = a') :
    Serial m view next ({ s with owner := owner, log := log }.setThread t th') a' := by
  refine ⟨State.forall_setThread h' (fun u uh hut hu => ?_), hfree⟩
  have h := hs.threads u uh hu
  obtain ⟨hbefore, hafter⟩ := hothers u hut
  rw [if_neg hbefore] at h
  rw [State.setThread_owner, if_neg hafter]
  exact h

/-- A statement that does not touch the lock. -/
theorem Serial.finish (hsound : Sound m d s)
    (hbody : ∀ l, Follows m view next none (m.body l)) (hs : Serial m view next s a) {x : S}
    (ht : s.threads t = some th) {k : Res x → Prog S Res L} {r : Res x} {mem : M}
    (hview : s.owner ≠ some t → view mem = view s.mem)
    (h' : Follows m view next (if s.owner = some t then some (a, view mem) else none) (k r))
    (hstep : m.finish s t th x k r mem = some s') : Serial m view next s' a := by
  have hmove : Serial m view next ({ s with mem := mem }.setThread t { th with prog := k r }) a :=
    hs.move hview h'
  obtain rfl | ⟨t', l, hst, hnone, rfl⟩ := Machine.finish_cases hstep
  · exact hmove
  · -- the new thread is none of the old ones, so it is not the owner
    have hne : t' ≠ t := by
      intro e
      subst e
      rw [State.threads_self] at hnone
      cases hnone
    rw [State.threads_of_ne hne] at hnone
    have hown := hsound.absent hnone
    refine hmove.move (fun _ => rfl) ?_
    rw [State.setThread_owner, if_neg hown]
    exact hbody l

/-- **Every step keeps it.**  The release of the lock may be a step of `next`; no other step of
the machine is one. -/
theorem Serial.step (hd : Disciplined m d) (hg : Guards m d view)
    (hbody : ∀ l, Follows m view next none (m.body l)) (hsound : Sound m d s)
    (hs : Serial m view next s a) {b : Action T E} (hstep : m.step s b = some s') :
    ∃ a', (a' = a ∨ ∃ o, next a o = some a') ∧ Serial m view next s' a' := by
  cases Machine.step_moves hstep with
  | lock ht hp hfree =>
    have hfollows := hs.threads _ _ ht
    have hnone : ∀ u, s.owner ≠ some u := fun u e => by
      rw [hfree] at e
      cases e
    rw [hp, if_neg (hnone _)] at hfollows
    refine ⟨a, Or.inl rfl, hs.turn ?_ ?_ ?_⟩
    · exact fun u hut => ⟨hnone u, fun e => hut (Option.some_inj.1 e).symm⟩
    · rw [if_pos rfl, hs.free hfree]
      exact hfollows a
    · intro e
      cases e
  | @unlock t _ _ _ ht hp =>
    have hfits := (hsound.threads _ _ ht).fits
    have hfollows := hs.threads _ _ ht
    rw [hp] at hfits
    have hown : s.owner = some t := of_decide_eq_true hfits.1
    rw [hp, if_pos hown] at hfollows
    refine ⟨view s.mem, hfollows.1, hs.turn ?_ ?_ (fun _ => rfl)⟩
    · intro u hut
      refine ⟨fun e => ?_, fun e => by cases e⟩
      rw [hown] at e
      exact hut (Option.some_inj.1 e).symm
    · rw [if_neg (fun e => by cases e)]
      exact hfollows.2
  | @stmt t e _ x _ r mem _ ht hp hexec hfinish =>
    have hfits := (hsound.threads _ _ ht).fits
    have hfollows := hs.threads _ _ ht
    rw [hp] at hfits hfollows
    refine ⟨a, Or.inl rfl, hs.finish hsound hbody ht ?_ ?_ hfinish⟩
    · -- without the lock, the statement does not need it
      intro hown
      refine hg x e s.mem r mem ?_ hexec
      rw [Bool.eq_false_iff]
      exact fun hx => hown (of_decide_eq_true (hfits.2.1 hx))
    · by_cases hown : s.owner = some t
      · rw [if_pos hown] at hfollows ⊢
        exact hfollows.2 e s.mem r mem rfl hexec
      · rw [if_neg hown] at hfollows ⊢
        exact hfollows r
  | @push t _ _ _ _ ht hp =>
    have hfits := (hsound.threads _ _ ht).fits
    have hfollows := hs.threads _ _ ht
    rw [hp] at hfits
    have hown : s.owner ≠ some t := of_decide_eq_false hfits.1
    rw [hp, if_neg hown] at hfollows
    refine ⟨a, Or.inl rfl, hs.move (fun _ => rfl) ?_⟩
    rw [if_neg hown]
    exact hfollows
  | @pop t _ _ _ ht hp =>
    have hfits := (hsound.threads _ _ ht).fits
    have hfollows := hs.threads _ _ ht
    rw [hp] at hfits
    have hown : s.owner ≠ some t := of_decide_eq_false hfits.1
    rw [hp, if_neg hown] at hfollows
    refine ⟨a, Or.inl rfl, hs.move (fun _ => rfl) ?_⟩
    rw [if_neg hown]
    exact follows_seq _ hfollows
  | @goto t _ _ l ht hp =>
    have hfits := (hsound.threads _ _ ht).fits
    rw [hp] at hfits
    have hown : s.owner ≠ some t := of_decide_eq_false hfits.1
    refine ⟨a, Or.inl rfl, hs.move (fun _ => rfl) ?_⟩
    rw [if_neg hown]
    exact hbody l
  | @cancel t _ _ _ ht hp hpoint hpending =>
    have hfits := (hsound.threads _ _ ht).fits
    rw [hp] at hfits
    -- a thread is not cancelled within a section
    have hown : s.owner ≠ some t :=
      of_decide_eq_false (hfits.1 (hd.pending s.mem t hpending) hpoint)
    refine ⟨a, Or.inl rfl, hs.move (fun _ => rfl) ?_⟩
    rw [if_neg hown]
    exact follows_seq _ trivial

/-- **Locked sections are single steps.**  In every state that is reached, the protected part is
what a run of `next` leaves, and what the section of the owner has made of it. -/
theorem Serial.reachable (hd : Disciplined m d) (hg : Guards m d view)
    (hbody : ∀ l, Follows m view next none (m.body l)) (hsound : Sound m d s)
    (hs : Serial m view next s a) (hr : Reachable m.step Any s s') :
    Sound m d s' ∧ ∃ a', Reachable next Any a a' ∧ Serial m view next s' a' := by
  obtain ⟨bs, hr⟩ := hr
  induction hr with
  | nil => exact ⟨hsound, a, Reachable.refl a, hs⟩
  | snoc _ _ hstep ih =>
    obtain ⟨hsound, a', hreach, hs⟩ := ih
    refine ⟨hsound.step hd hstep, ?_⟩
    obtain ⟨a'', rfl | ⟨o, ho⟩, hs'⟩ := hs.step hd hg hbody hsound hstep
    · exact ⟨a'', hreach, hs'⟩
    · exact ⟨a'', hreach.step trivial ho, hs'⟩

/-- **A section comes to its end by itself**, whoever waits for the lock meanwhile. -/
theorem Follows.completes {a₀ : A} (ht : s.threads t = some th)
    (h : Follows m view next (some (a₀, view s.mem)) th.prog) (e : E) :
    ∃ s', Reachable m.step (fun _ b => ∃ e, b = .run t e) s s' ∧ s'.owner = none ∧
      (view s'.mem = a₀ ∨ ∃ o, next a₀ o = some (view s'.mem)) := by
  generalize hp : th.prog = p at h
  induction p generalizing s th with
  | unlock k =>
    have hstep : m.step s (.run t e) = some ({ s with
        owner := none
        log := s.log ++ [(t, Event.unlock)] }.setThread t { th with prog := k }) := by
      simp only [Machine.step, ht, hp]
    exact ⟨_, ⟨_, Run.single ⟨e, rfl⟩ hstep⟩, rfl, h.1⟩
  | stmt x k ih =>
    obtain ⟨hend, hrest⟩ := h
    obtain ⟨e', r, mem, hexec⟩ := hend.exec s.mem
    have hstep : m.step s (.run t e') =
        some ({ s with mem := mem }.setThread t { th with prog := k r }) := by
      simp only [Machine.step, ht, hp, Machine.ready, hend.awaits, if_true, hexec, Machine.finish,
        hend.starts]
    obtain ⟨s', ⟨bs, hrun⟩, hs'⟩ := ih r
      (State.threads_self { s with mem := mem } t { th with prog := k r }) rfl
      (hrest e' s.mem r mem rfl hexec)
    exact ⟨s', ⟨_, hrun.cons ⟨e', rfl⟩ hstep⟩, hs'⟩
  | lock _ | push _ _ | pop _ | goto _ | exit => cases h

/-- So the owner of the lock can always release it, and then its section has been one step, or
has changed nothing. -/
theorem Serial.completes (hs : Serial m view next s a) (hsound : Sound m d s)
    (hown : s.owner = some t) (e : E) :
    ∃ s', Reachable m.step (fun _ b => ∃ e, b = .run t e) s s' ∧ s'.owner = none ∧
      (view s'.mem = a ∨ ∃ o, next a o = some (view s'.mem)) := by
  obtain ⟨th, hth⟩ := Option.isSome_iff_exists.1 (hsound.owner t hown)
  have h := hs.threads t th hth
  rw [if_pos hown] at h
  exact h.completes hth e

end Serial

end Locking
