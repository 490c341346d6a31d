import Mathlib.Data.Nat.Notation

/-!
# Loops

A `while` loop whose body may also leave it. A turn of the loop goes on with a new state
or leaves with one. `whileLoop` has a bound on the number of turns; `Ends` says that the
loop is left in a state, whatever the bound is once it is large enough. What the turns
keep holds there (`Ends.behind`); the loop is left when a measure goes down
(`endsIn_of_measure`), and never when the turns keep a condition under which they all go on
(`not_ends`).
-/

set_option autoImplicit false

namespace Vzgot.While

universe u

variable {σ : Type u}

/-- End of a turn. -/
inductive Turn (σ : Type u) where
  | again (s : σ)
  | leave (s : σ)

/-- The loop, with a bound on the number of turns. -/
def whileLoop (turn : σ → Turn σ) : Nat → σ → Option σ
  | 0, _ => none
  | fuel + 1, s =>
      match turn s with
      | .again t => whileLoop turn fuel t
      | .leave t => some t

/-- The loop is left in the state `t`, after at most `n` turns. -/
def EndsIn (turn : σ → Turn σ) (n : Nat) (s t : σ) : Prop :=
  ∀ fuel, n ≤ fuel → whileLoop turn fuel s = some t

/-- The loop is left in the state `t`. -/
def Ends (turn : σ → Turn σ) (s t : σ) : Prop := ∃ n, EndsIn turn n s t

section Rules

variable {turn : σ → Turn σ} {s t : σ} {n : Nat}

theorem whileLoop_again {fuel : Nat} (h : turn s = .again t) :
    whileLoop turn (fuel + 1) s = whileLoop turn fuel t := by
  rw [whileLoop, h]

theorem whileLoop_leave {fuel : Nat} (h : turn s = .leave t) :
    whileLoop turn (fuel + 1) s = some t := by
  rw [whileLoop, h]

theorem endsIn_leave (h : turn s = .leave t) : EndsIn turn 1 s t := by
  intro fuel hfuel
  obtain ⟨k, rfl⟩ : ∃ k, fuel = k + 1 := ⟨fuel - 1, by omega⟩
  exact whileLoop_leave h

theorem EndsIn.again {m : σ} (h : turn s = .again m) (hm : EndsIn turn n m t) :
    EndsIn turn (n + 1) s t := by
  intro fuel hfuel
  obtain ⟨k, rfl⟩ : ∃ k, fuel = k + 1 := ⟨fuel - 1, by omega⟩
  rw [whileLoop_again h]
  exact hm k (by omega)

/-- A larger bound gives the same state. -/
theorem endsIn_of_whileLoop {fuel : Nat} (h : whileLoop turn fuel s = some t) :
    EndsIn turn fuel s t := by
  induction fuel generalizing s with
  | zero => cases h
  | succ fuel ih =>
      cases hturn : turn s with
      | again m =>
          rw [whileLoop_again hturn] at h
          exact (ih h).again hturn
      | leave m =>
          rw [whileLoop_leave hturn] at h
          obtain rfl := Option.some.inj h
          intro k hk
          exact endsIn_leave hturn k (by omega)

variable {inv after : σ → Prop}

/-- What every turn keeps, and what leaving makes of it. -/
theorem Ends.behind (hagain : ∀ s t, inv s → turn s = .again t → inv t)
    (hleave : ∀ s t, inv s → turn s = .leave t → after t) (hs : inv s) (h : Ends turn s t) :
    after t := by
  obtain ⟨n, hn⟩ := h
  have hrun := hn n (Nat.le_refl n)
  clear hn
  induction n generalizing s with
  | zero => cases hrun
  | succ n ih =>
      cases hturn : turn s with
      | again m =>
          rw [whileLoop_again hturn] at hrun
          exact ih (hagain s m hs hturn) hrun
      | leave m =>
          rw [whileLoop_leave hturn] at hrun
          exact Option.some.inj hrun ▸ hleave s m hs hturn

/-- A loop ends when every turn that goes on makes a measure smaller. -/
theorem endsIn_of_measure (measure : σ → Nat)
    (hagain : ∀ s t, inv s → turn s = .again t → inv t ∧ measure t < measure s) (hs : inv s) :
    ∃ t, EndsIn turn (measure s + 1) s t := by
  induction hk : measure s using Nat.strongRecOn generalizing s with
  | ind k ih =>
      subst hk
      cases hturn : turn s with
      | again m =>
          obtain ⟨hm, hless⟩ := hagain s m hs hturn
          obtain ⟨t, ht⟩ := ih (measure m) hless hm rfl
          exact ⟨t, fun fuel hfuel => ht.again hturn fuel (by omega)⟩
      | leave m => exact ⟨m, fun fuel hfuel => endsIn_leave hturn fuel (by omega)⟩

/-- A loop never ends when every turn goes on under a condition that the turns keep. -/
theorem not_ends (hagain : ∀ s, inv s → ∃ t, turn s = .again t ∧ inv t) (hs : inv s) :
    ¬ Ends turn s t := by
  intro h
  refine @Ends.behind _ _ _ _ inv (fun _ => False) ?_ ?_ hs h
  · intro a b ha hturn
    obtain ⟨c, hc, hinv⟩ := hagain a ha
    rw [hturn] at hc
    cases hc
    exact hinv
  · intro a b ha hturn
    obtain ⟨c, hc, -⟩ := hagain a ha
    rw [hturn] at hc
    cases hc

end Rules

end Vzgot.While
