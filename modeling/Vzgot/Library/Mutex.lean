import Mathlib.Logic.Relation

/-!
# An abstract mutual-exclusion lock

The state of the lock is its owner, if any. It is acquired when it is free and
released by its owner. A system refines the lock when the owner read off its
states moves by such steps; `ownerOf` reads the owner off a predicate that at most
one process satisfies.
-/

set_option autoImplicit false

namespace Vzgot.Mutex

universe u

variable {P : Type u}

/-- Acquisition of a free lock, and release by the owner. -/
inductive Step : Option P → Option P → Prop where
  | acquire (p : P) : Step none (some p)
  | release (p : P) : Step (some p) none

open Classical in
/-- The process that satisfies `owns`, if there is one. -/
noncomputable def ownerOf (owns : P → Prop) : Option P :=
  if h : ∃ p, owns p then some h.choose else none

theorem ownerOf_eq_none {owns : P → Prop} (h : ∀ p, ¬ owns p) : ownerOf owns = none :=
  dif_neg fun ⟨p, hp⟩ => h p hp

theorem ownerOf_eq_some {owns : P → Prop} (huniq : ∀ p q, owns p → owns q → p = q) {p : P}
    (hp : owns p) : ownerOf owns = some p := by
  have hex : ∃ p, owns p := ⟨p, hp⟩
  rw [ownerOf, dif_pos hex, huniq _ p hex.choose_spec hp]

/-- At most one process owns the lock after a step of `p` when nobody else comes to own it
and `p` owns it beside no other. -/
theorem unique_step {owns owns' : P → Prop} (huniq : ∀ p q, owns p → owns q → p = q) (p : P)
    (hothers : ∀ q, q ≠ p → owns' q → owns q) (hself : owns' p → ∀ q, q ≠ p → ¬ owns q) :
    ∀ q r, owns' q → owns' r → q = r := by
  intro q r hq hr
  rcases Classical.em (q = p) with rfl | hqp
  · rcases Classical.em (r = q) with rfl | hrq
    · rfl
    · exact absurd (hothers r hrq hr) (hself hq r hrq)
  · rcases Classical.em (r = p) with rfl | hrp
    · exact absurd (hothers q hqp hq) (hself hr q hqp)
    · exact huniq q r (hothers q hqp hq) (hothers r hrp hr)

/-- When at most one process owns the lock before and after, and only the standing
of `p` changes, the owner moves by a step of the lock or stays. -/
theorem ownerOf_step {owns owns' : P → Prop} (huniq : ∀ p q, owns p → owns q → p = q)
    (huniq' : ∀ p q, owns' p → owns' q → p = q) (p : P)
    (hframe : ∀ q, q ≠ p → (owns' q ↔ owns q)) :
    Relation.ReflTransGen Step (ownerOf owns) (ownerOf owns') := by
  by_cases hother : ∃ q, q ≠ p ∧ owns q
  · obtain ⟨q, hqp, hq⟩ := hother
    rw [ownerOf_eq_some huniq hq, ownerOf_eq_some huniq' ((hframe q hqp).2 hq)]
  · have hnone : ∀ q, owns q → q = p := fun q hq => Classical.byContradiction fun hqp => hother ⟨q, hqp, hq⟩
    have hnone' : ∀ q, owns' q → q = p := fun q hq =>
      Classical.byContradiction fun hqp => hqp (hnone q ((hframe q hqp).1 hq))
    by_cases hp : owns p <;> by_cases hp' : owns' p
    · rw [ownerOf_eq_some huniq hp, ownerOf_eq_some huniq' hp']
    · rw [ownerOf_eq_some huniq hp, ownerOf_eq_none fun q hq => hp' (hnone' q hq ▸ hq)]
      exact Relation.ReflTransGen.single (Step.release p)
    · rw [ownerOf_eq_some huniq' hp', ownerOf_eq_none fun q hq => hp (hnone q hq ▸ hq)]
      exact Relation.ReflTransGen.single (Step.acquire p)
    · rw [ownerOf_eq_none fun q hq => hp' (hnone' q hq ▸ hq),
        ownerOf_eq_none fun q hq => hp (hnone q hq ▸ hq)]

end Vzgot.Mutex
