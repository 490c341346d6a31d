import Mathlib.Data.List.Basic

/-!
# Programs that make calls

A program of type `Prog ρ α` makes calls of a type `ι`, goes on with their results, and
yields a value. The result of the call `c` is of type `ρ c`, and nothing is known about
it. `Runs p h a` says that `p` may make the calls of `h`, with the results noted there, and
then yield `a`. `Meets p post` says that every run of `p` ends as `post` says; it is proved
with one rule for each way to build a program.
-/

set_option autoImplicit false

namespace Vzgot.Calls

universe u v w

/-- Programs with calls of type `ι`. -/
inductive Prog {ι : Type u} (ρ : ι → Type v) (α : Type w) where
  | ret (a : α)
  | call (c : ι) (k : ρ c → Prog ρ α)

variable {ι : Type u} {ρ : ι → Type v} {α : Type w} {β : Type w}

/-- One program after the other. -/
def Prog.bind : Prog ρ α → (α → Prog ρ β) → Prog ρ β
  | .ret a, f => f a
  | .call c k, f => .call c fun r => (k r).bind f

/-- The program may make these calls and yield this value. -/
def Runs : Prog ρ α → List (Sigma ρ) → α → Prop
  | .ret a, h, b => h = [] ∧ b = a
  | .call c k, h, b => ∃ r h', h = ⟨c, r⟩ :: h' ∧ Runs (k r) h' b

/-- The calls and the value when the results are given. -/
def exec (answer : (c : ι) → ρ c) : Prog ρ α → List (Sigma ρ) × α
  | .ret a => ([], a)
  | .call c k =>
      let r := exec answer (k (answer c))
      (⟨c, answer c⟩ :: r.1, r.2)

/-- Every run ends in this way. -/
structure Meets (p : Prog ρ α) (post : List (Sigma ρ) → α → Prop) : Prop where
  of_runs : ∀ h a, Runs p h a → post h a

section Rules

variable {p : Prog ρ α} {f : α → Prog ρ β} {post post' : List (Sigma ρ) → α → Prop}

theorem runs_exec (answer : (c : ι) → ρ c) (p : Prog ρ α) :
    Runs p (exec answer p).1 (exec answer p).2 := by
  induction p with
  | ret a => exact ⟨rfl, rfl⟩
  | call c k ih => exact ⟨answer c, _, rfl, ih (answer c)⟩

theorem runs_bind {h : List (Sigma ρ)} {b : β} :
    Runs (p.bind f) h b ↔ ∃ h₁ h₂ a, h = h₁ ++ h₂ ∧ Runs p h₁ a ∧ Runs (f a) h₂ b := by
  induction p generalizing h with
  | ret a =>
      constructor
      · intro hrun
        exact ⟨[], h, a, rfl, ⟨rfl, rfl⟩, hrun⟩
      · rintro ⟨h₁, h₂, a', rfl, ⟨rfl, rfl⟩, hrun⟩
        exact hrun
  | call c k ih =>
      constructor
      · rintro ⟨r, h', rfl, hrun⟩
        obtain ⟨h₁, h₂, a, rfl, hp, hf⟩ := (ih r).mp hrun
        exact ⟨⟨c, r⟩ :: h₁, h₂, a, rfl, ⟨r, h₁, rfl, hp⟩, hf⟩
      · rintro ⟨_, h₂, a, rfl, ⟨r, h₁, rfl, hp⟩, hf⟩
        exact ⟨r, h₁ ++ h₂, rfl, (ih r).mpr ⟨h₁, h₂, a, rfl, hp, hf⟩⟩

theorem Meets.mono (h : Meets p post) (himp : ∀ h a, post h a → post' h a) : Meets p post' :=
  ⟨fun h' a hrun => himp h' a (h.of_runs h' a hrun)⟩

theorem meets_ret {a : α} (h : post [] a) : Meets (.ret a) post := by
  constructor
  rintro _ _ ⟨rfl, rfl⟩
  exact h

/-- The results of a call are considered one by one. -/
theorem meets_call {c : ι} {k : ρ c → Prog ρ α}
    (h : ∀ r, Meets (k r) fun h a => post (⟨c, r⟩ :: h) a) : Meets (.call c k) post := by
  constructor
  rintro _ a ⟨r, h', rfl, hrun⟩
  exact (h r).of_runs h' a hrun

/-- First what holds of the first program, then what follows for the second. -/
theorem Meets.bind {post' : List (Sigma ρ) → β → Prop} (hp : Meets p post)
    (hf : ∀ h a, post h a → Meets (f a) fun h' b => post' (h ++ h') b) :
    Meets (p.bind f) post' := by
  constructor
  intro h b hrun
  obtain ⟨h₁, h₂, a, rfl, hrun₁, hrun₂⟩ := runs_bind.mp hrun
  exact (hf h₁ a (hp.of_runs h₁ a hrun₁)).of_runs h₂ b hrun₂

end Rules

end Vzgot.Calls
