import Mathlib.Data.List.Basic

/-!
# A network that may lose, reorder and double what it carries

A datagram that has been sent is on its way until it arrives or is lost.  Any of those on their way
may arrive next, and a copy of it may stay on its way.  At an end that is not open what
arrives is thrown away.

Such a network makes nothing up: what is true of all that is sent is true of what is on its way and
of what has arrived (`Net.All`).
-/

namespace LossyNet

variable {D : Type*}

structure Net (D : Type*) where
  flying : List D
  /-- what waits to be received, the oldest first -/
  arrived : List D

namespace Net

def empty : Net D := { flying := [], arrived := [] }

def send (m : Net D) (d : D) : Net D := { m with flying := m.flying ++ [d] }

/-- The datagram at the place `i` is lost. -/
def lose (m : Net D) (i : Nat) : Option (Net D) :=
  if i < m.flying.length then some { m with flying := m.flying.eraseIdx i } else none

/-- It arrives; `stays`: a copy of it is left. -/
def arrive (m : Net D) (i : Nat) (stays isOpen : Bool) : Option (Net D) :=
  m.flying[i]?.map (fun d =>
    { flying := if stays then m.flying else m.flying.eraseIdx i
      arrived := if isOpen then m.arrived ++ [d] else m.arrived })

def receive (m : Net D) : Option (D × Net D) :=
  match m.arrived with
  | [] => none
  | d :: arrived => some (d, { m with arrived := arrived })

/-- All datagrams have the property. -/
structure All (P : D → Prop) (m : Net D) : Prop where
  flying : ∀ d ∈ m.flying, P d
  arrived : ∀ d ∈ m.arrived, P d

/-- How many times something can still happen to the datagrams, if none is doubled. -/
def left (m : Net D) : Nat := 2 * m.flying.length + m.arrived.length

variable {m m' : Net D} {P : D → Prop} {d : D} {i : Nat}

namespace All

theorem empty : All P (empty : Net D) := ⟨nofun, nofun⟩

theorem mono {Q : D → Prop} (h : m.All P) (hPQ : ∀ d, P d → Q d) : m.All Q :=
  ⟨fun d hd => hPQ d (h.flying d hd), fun d hd => hPQ d (h.arrived d hd)⟩

theorem send (h : m.All P) (hd : P d) : (m.send d).All P := by
  refine ⟨fun e he => ?_, h.arrived⟩
  rcases List.mem_append.1 he with he | he
  · exact h.flying e he
  · rw [List.mem_singleton] at he
    rw [he]
    exact hd

theorem lose (h : m.All P) (hl : m.lose i = some m') : m'.All P := by
  unfold Net.lose at hl
  split at hl
  · cases hl
    exact ⟨fun d hd => h.flying d (List.mem_of_mem_eraseIdx hd), h.arrived⟩
  · cases hl

theorem arrive {stays isOpen : Bool} (h : m.All P) (ha : m.arrive i stays isOpen = some m') :
    m'.All P := by
  obtain ⟨d, hd, rfl⟩ := Option.map_eq_some_iff.1 ha
  have hP : P d := h.flying d (List.mem_of_getElem? hd)
  constructor
  · intro e he
    cases stays
    · exact h.flying e (List.mem_of_mem_eraseIdx he)
    · exact h.flying e he
  · intro e he
    cases isOpen
    · exact h.arrived e he
    · rcases List.mem_append.1 he with he | he
      · exact h.arrived e he
      · rw [List.mem_singleton] at he
        rw [he]
        exact hP

theorem receive (h : m.All P) (hr : m.receive = some (d, m')) : P d ∧ m'.All P := by
  unfold Net.receive at hr
  split at hr
  · cases hr
  · rename_i e arrived he
    cases hr
    have harr := h.arrived
    rw [he] at harr
    exact ⟨harr _ List.mem_cons_self, h.flying, fun e he => harr e (List.mem_cons_of_mem _ he)⟩

end All

theorem left_send (m : Net D) (d : D) : (m.send d).left = m.left + 2 := by
  simp only [left, send, List.length_append, List.length_singleton]
  omega

theorem left_lose (hl : m.lose i = some m') : m'.left < m.left := by
  unfold lose at hl
  split at hl
  · rename_i hi
    cases hl
    have hlen := List.length_eraseIdx_of_lt hi
    simp only [left]
    omega
  · cases hl

theorem left_arrive {isOpen : Bool} (ha : m.arrive i false isOpen = some m') :
    m'.left < m.left := by
  obtain ⟨d, hd, rfl⟩ := Option.map_eq_some_iff.1 ha
  obtain ⟨hi, -⟩ := List.getElem?_eq_some_iff.1 hd
  have hlen := List.length_eraseIdx_of_lt hi
  cases isOpen
  · simp only [left, Bool.false_eq_true, if_false]
    omega
  · simp only [left, Bool.false_eq_true, if_false, if_true, List.length_append,
      List.length_singleton]
    omega

theorem left_receive (hr : m.receive = some (d, m')) : m'.left < m.left := by
  unfold receive at hr
  split at hr
  · cases hr
  · rename_i e arrived he
    cases hr
    simp only [left, he, List.length_cons]
    omega

end Net

end LossyNet
