import EmbeddedLinux.Restaurant.Program

/-!
# What the trays keep, and that the service goes on

For any number of processes in each role, in every state the program can reach:

* `trays_keep_dishes`: no dish of a tray is lost, invented or overwritten, and the
  semaphores agree with the slots;
* `service_goes_on`: at a tray with a chef and a customer of its own, one of the processes
  that work there can take a step.
-/

namespace EmbeddedLinux.Restaurant

open Tally Transition

section
variable {ι : Type*} [Fintype ι] [DecidableEq ι]

/-- **Trays neither lose, invent nor overwrite dishes.**  In order: the mutex excludes;
a loop that runs finds a slot among those it has not tested yet, and the slot is still
so at the store; every slot is `EMPTY` or has the tray's type; the filled slots are the
stores less the clears; and the units of `empty` and `full`, with those that processes
hold, are `BUFFER_SIZE`. -/
theorem trays_keep_dishes {role : ι → Role} {s : State ι}
    (hr : Reachable (step role) Any (initial role) s) (d : Dish) :
    (∀ i j p q, s.pc i = .inside d p → s.pc j = .inside d q → p.inMutex = true →
      q.inMutex = true → i = j) ∧
    (∀ i k, s.pc i = .inside d (.test k) → ∃ j : Fin bufferSize, k ≤ j.val ∧
      (s.tray d).items j = if (role i).adds then Item.empty else d.itemType) ∧
    (∀ i j, s.pc i = .inside d (.write j) →
      (s.tray d).items j = if (role i).adds then Item.empty else d.itemType) ∧
    (∀ j, (s.tray d).items j = Item.empty ∨ (s.tray d).items j = d.itemType) ∧
    (s.tray d).filled + s.clears d = s.stores d ∧
    (s.tray d).sem .empty + (s.tray d).sem .full + (s.at d).permits = bufferSize := by
  have h := sound_run hr d
  have hfind : ∀ i, (routine (fun i => (role i).adds) d.itemType i).find =
      if (role i).adds then Item.empty else d.itemType := by
    intro i
    rw [routine]
    split <;> rfl
  refine ⟨?_, ?_, ?_, h.slots, h.history, h.units⟩
  · intro i j p q hi hj hp hq
    exact h.exclusive (Pc.at_eq_some.mpr hi) (Pc.at_eq_some.mpr hj) hp hq
  · intro i k hi
    rw [← hfind]
    exact h.finds (Pc.at_eq_some.mpr hi)
  · intro i j hi
    rw [← hfind]
    exact (h.found i j (Pc.at_eq_some.mpr hi)).1

/-- Portecelli wakes up and adds a dish, up to the store, while Donatello and the customers
are at their first `sem_wait`. -/
def firstDish : List (Action (Fin 5)) :=
  [.proc portecelli, .proc portecelli, .proc donatello] ++ List.replicate 3 (.proc portecelli)

theorem trays_keep_dishes_first :
    ∃ s, exec (step mainRoles) (initial mainRoles) firstDish = some s ∧
      s.pc portecelli = .inside .vegan .unlock ∧ (s.tray .vegan).items 0 = Item.vegan ∧
      (s.tray .vegan).filled + s.clears .vegan = s.stores .vegan ∧
      (s.tray .vegan).sem .empty + (s.tray .vegan).sem .full + (s.at .vegan).permits =
        bufferSize := by
  have hr : Reachable (step mainRoles) Any (initial mainRoles) _ := ⟨firstDish, exec_run rfl⟩
  exact ⟨_, rfl, rfl, rfl, (trays_keep_dishes hr .vegan).2.2.2.2⟩

/-! ### Progress -/

/-- The tray a process is at, or sleeps before. -/
def Pc.dish : Pc → Dish
  | .sleeping d => d
  | .inside d _ => d

/-- The trays of a role. -/
def Role.uses : Role → Dish → Prop
  | .chef d, d' => d' = d
  | .customer d, d' => d' = d
  | .customer3, _ => True

omit [Fintype ι] in
/-- A process stays at the trays of its role. -/
theorem uses_run {role : ι → Role} {s : State ι} (hr : Reachable (step role) Any (initial role) s)
    (i : ι) : (role i).uses (s.pc i).dish := by
  refine hr.invariant (P := fun s => (role i).uses (s.pc i).dish) ?_ ?_
  · show (role i).uses (role i).start.dish
    cases role i with
    | chef d => exact rfl
    | customer d => exact rfl
    | customer3 => exact trivial
  · intro s a t h _ hn
    obtain ⟨-, rfl⟩ | ⟨j, d, -, hj, rfl⟩ | ⟨j, d, p, b, q, -, hj, -, rfl⟩ := step_cases hn
    · exact h
    · show (role i).uses (Function.update s.pc j (.inside d .first) i).dish
      by_cases hij : i = j
      · subst hij
        rw [Function.update_self]
        rw [hj] at h
        exact h
      · rw [Function.update_of_ne hij]
        exact h
    · show (role i).uses (Function.update s.pc j ((role j).after d q) i).dish
      by_cases hij : i = j
      · subst hij
        rw [Function.update_self]
        rw [hj] at h
        cases q with
        | some q => exact h
        | none =>
          show (role i).uses ((role i).next d)
          cases hi : role i <;> rw [hi] at h
          · exact h
          · exact h
          · exact trivial
      · rw [Function.update_of_ne hij]
        exact h

omit [Fintype ι] in
/-- A process of a tray's own can take a step, or is inside a call on it. -/
theorem enabled_or_inside (role : ι → Role) {s : State ι} {i : ι} {d : Dish}
    (h : (s.pc i).dish = d) :
    (step role s (.proc i)).isSome = true ∨ ∃ p, s.pc i = .inside d p := by
  rw [step]
  cases hi : s.pc i with
  | sleeping d' => exact Or.inl rfl
  | inside d' p =>
    rw [hi] at h
    exact Or.inr ⟨p, by rw [← h]; rfl⟩

/-- **The restaurant never deadlocks.**  At a tray with a chef and a customer of its own,
one of its chefs, of its customers, or a `customer3` inside `remove_item` there can take
a step. -/
theorem service_goes_on {role : ι → Role} {s : State ι}
    (hr : Reachable (step role) Any (initial role) s) {d : Dish} (hchef : ∃ i, role i = .chef d)
    (hcust : ∃ i, role i = .customer d) :
    ∃ i, (role i = .chef d ∨ role i = .customer d ∨
      role i = .customer3 ∧ ∃ p, s.pc i = .inside d p) ∧ (step role s (.proc i)).isSome = true := by
  obtain ⟨i, hi⟩ := hchef
  obtain ⟨j, hj⟩ := hcust
  have hid : (s.pc i).dish = d := by
    have := uses_run hr i
    rw [hi] at this
    exact this
  have hjd : (s.pc j).dish = d := by
    have := uses_run hr j
    rw [hj] at this
    exact this
  rcases enabled_or_inside role hid with he | ⟨p, hp⟩
  · exact ⟨i, Or.inl hi, he⟩
  rcases enabled_or_inside role hjd with he | ⟨q, hq⟩
  · exact ⟨j, Or.inr (Or.inl hj), he⟩
  -- both are inside: the counts leave somebody a step
  obtain ⟨k, r, hk, hs⟩ := (sound_run hr d).progress (by rw [hi]; rfl) (by rw [hj]; rfl)
    (Pc.at_eq_some.mpr hp) (Pc.at_eq_some.mpr hq)
  have hk' : s.pc k = .inside d r := Pc.at_eq_some.mp hk
  refine ⟨k, ?_, ?_⟩
  · have huse := uses_run hr k
    rw [hk'] at huse
    cases hrole : role k with
    | chef d' =>
      rw [hrole] at huse
      left
      rw [show d = d' from huse]
    | customer d' =>
      rw [hrole] at huse
      right; left
      rw [show d = d' from huse]
    | customer3 => exact Or.inr (Or.inr ⟨rfl, r, hk'⟩)
  · rw [step, hk']
    simp only [Option.isSome_map]
    rw [Option.isSome_iff_ne_none]
    exact hs

/-- With the five processes of `main`, after the first dish, at its tray. -/
theorem service_goes_on_first :
    ∃ s, exec (step mainRoles) (initial mainRoles) firstDish = some s ∧
      ∃ i, (mainRoles i = .chef .vegan ∨ mainRoles i = .customer .vegan ∨
        mainRoles i = .customer3 ∧ ∃ p, s.pc i = .inside .vegan p) ∧
        (step mainRoles s (.proc i)).isSome = true := by
  have hr : Reachable (step mainRoles) Any (initial mainRoles) _ := ⟨firstDish, exec_run rfl⟩
  exact ⟨_, rfl, service_goes_on hr ⟨portecelli, rfl⟩ ⟨3, rfl⟩⟩

end

end EmbeddedLinux.Restaurant
