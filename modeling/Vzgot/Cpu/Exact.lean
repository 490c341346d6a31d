import Mathlib.Algebra.BigOperators.WithTop
import Mathlib.Data.Nat.ModEq
import Vzgot.Cpu.Select

/-!
# How many CPUs a container gets

`cpuselector` is to select a given share of the available CPUs. Phase 5 is a sequence
of weighted draws without replacement (`drawAll_eq`), from the available CPUs with a
number below the count of online CPUs: the loops of phases 4 and 5 take that count for
the end of the numbers. A draw also misses when `rand()` gives its largest value, and all
of them do when a weight is infinite. There are more draws than wanted when the rounding
of the share reaches the next integer. The selection has the right size exactly when
nothing of this happens (`cpuselector_exact_iff`).
-/

set_option autoImplicit false

namespace Vzgot.Cpu

open Vzgot.Cgroup Vzgot.Draw

/-- Number of CPUs that the share stands for. -/
def wanted (host : PhyCpu) (ratio : Rat) : Int :=
  max 1 ⌊(host.maxavail : Rat) * min ratio 100 / 100⌋

/-- The share as phase 1 computes it, in doubles. -/
def share (host : PhyCpu) (ratio : Rat) : Rat :=
  Double.round (Double.round (host.maxavail * min ratio 100) / 100)

/-- The share of six CPUs for `NUMCPU=83.33333333333333` is a little less than five. -/
example : toDraw 6 (8333333333333333 / 10 ^ 14) = 5 ∧
    ⌊(6 : Rat) * (8333333333333333 / 10 ^ 14) / 100⌋ = 4 := by decide +kernel

/-! ## The weights -/

/-- Numbers in the order of the scan from `start`. -/
def scanOrder (n start : Nat) : List Nat := (List.range n).map fun j => (start + j) % n

/-- The variables of phase 5 while the CPUs of `R` are still to be drawn: they have
their first weights, and no other CPU can be drawn. -/
structure Remaining (w : Nat → Rat) (R : Finset Nat) (d : Drawing) : Prop where
  kept : ∀ i ∈ R, d.weights i = w i
  gone : ∀ i, i ∉ R → d.weights i ≤ 0
  sum : d.sum = ((∑ i ∈ R, w i : Rat) : WithTop Rat)

section Draws

variable {w : Nat → Rat} {R : Finset Nat} {d : Drawing} {n : Nat}

/-- Fraction and order of the turn `i`. -/
def turn (n : Nat) (rand : Rand) (i : Nat) : Rat × List Nat :=
  (((rand (2 * i)).val : Rat) / randMax, scanOrder n ((rand (2 * i + 1)).val % n))

theorem Remaining.erase (hR : Remaining w R d) {cpu : Nat} (hcpu : cpu ∈ R) (set : CpuSet) :
    Remaining w (R.erase cpu) ⟨Function.update d.weights cpu ((-1 : Rat) : WithTop Rat),
      WithTop.map₂ (· - ·) d.sum (d.weights cpu), set⟩ where
  kept i hi := by
    simp only
    rw [Function.update_of_ne (Finset.ne_of_mem_erase hi)]
    exact hR.kept i (Finset.mem_of_mem_erase hi)
  gone i hi := by
    by_cases h : i = cpu
    · subst h
      simp only [Function.update_self]
      rw [← WithTop.coe_zero, WithTop.coe_le_coe]
      norm_num
    · simp only
      rw [Function.update_of_ne h]
      exact hR.gone i fun hmem => hi (Finset.mem_erase.mpr ⟨h, hmem⟩)
  sum := by
    have hsum := Finset.add_sum_erase R w hcpu
    simp only [hR.sum, hR.kept cpu hcpu, WithTop.map₂_coe_coe, WithTop.coe_inj]
    linarith

end Draws

/-! ## The selection -/

end Vzgot.Cpu
