import Vzgot.Library.Double
import Vzgot.Library.Stdio

/-!
# Decimal fractions of the C library

`printFixed width prec q` is what the conversion `%*.*f` of `printf` writes for a
nonnegative number: `q` rounded to `prec` digits, ties to the even digit, and blanks in
front up to `width`. A number whose whole part has few enough digits fills the width
exactly (`printFixed_length`).
-/

set_option autoImplicit false

namespace Vzgot.Stdio

open Vzgot.Double

/-- The last `prec` digits of `n`, with zeros in front. -/
def fraction (prec n : Nat) : List Char :=
  let digits := Nat.toDigits 10 (n % 10 ^ prec)
  List.replicate (prec - digits.length) '0' ++ digits

/-- The conversion `%*.*f` of a nonnegative number. -/
def printFixed (width prec : Nat) (q : Rat) : List Char :=
  let n := (roundEven (q * 10 ^ prec)).toNat
  let body := Nat.toDigits 10 (n / 10 ^ prec) ++ if prec = 0 then [] else '.' :: fraction prec n
  List.replicate (width - body.length) ' ' ++ body

/-- The conversion `%-*s`. -/
def padRight (width : Nat) (s : List Char) : List Char :=
  s ++ List.replicate (width - s.length) ' '

theorem fraction_digits (prec n : Nat) : ∀ c ∈ fraction prec n, c.isDigit = true := by
  intro c hc
  rcases List.mem_append.mp hc with hc | hc
  · rw [List.eq_of_mem_replicate hc]
    rfl
  · exact isDigit_of_mem_toDigits hc

theorem ofDigitChars_fraction (prec n : Nat) :
    Nat.ofDigitChars 10 (fraction prec n) 0 = n % 10 ^ prec := by
  rw [fraction, Nat.ofDigitChars_append, Nat.ofDigitChars_replicate_zero, Nat.mul_zero,
    Nat.ofDigitChars_ten_toDigits]

theorem fraction_length {prec : Nat} (hprec : 0 < prec) (n : Nat) :
    (fraction prec n).length = prec := by
  have hlt : n % 10 ^ prec < 10 ^ prec := Nat.mod_lt _ (Nat.pow_pos (by decide))
  have hdigits := (Nat.length_toDigits_le_iff (by decide) hprec).2 hlt
  simp only [fraction, List.length_append, List.length_replicate]
  omega

/-- The digits in front of the point and behind it are the digits of the number. -/
theorem ofDigitChars_split {prec : Nat} (hprec : 0 < prec) (n : Nat) :
    Nat.ofDigitChars 10 (Nat.toDigits 10 (n / 10 ^ prec) ++ fraction prec n) 0 = n := by
  rw [Nat.ofDigitChars_append, Nat.ofDigitChars_ten_toDigits,
    Nat.ofDigitChars_eq_ofDigitChars_zero, ofDigitChars_fraction, fraction_length hprec,
    Nat.div_add_mod]

/-- With at most `k` digits in front of the point, the text is as wide as asked. -/
theorem printFixed_length {width prec k : Nat} {q : Rat} (hk : 0 < k) (hprec : 0 < prec)
    (hwidth : k + 1 + prec ≤ width) (hq : q * 10 ^ prec ≤ ((10 ^ k * 10 ^ prec - 1 : Int) : Rat)) :
    (printFixed width prec q).length = width := by
  have hround := roundEven_le hq
  have hn : (roundEven (q * 10 ^ prec)).toNat < 10 ^ k * 10 ^ prec := by
    have hpos : (0 : Int) < 10 ^ k * 10 ^ prec := by positivity
    zify
    omega
  have hwhole : (roundEven (q * 10 ^ prec)).toNat / 10 ^ prec < 10 ^ k :=
    Nat.div_lt_of_lt_mul (by rwa [Nat.mul_comm])
  have hdigits := (Nat.length_toDigits_le_iff (by decide) hk).2 hwhole
  have hfraction := fraction_length hprec (roundEven (q * 10 ^ prec)).toNat
  simp only [printFixed, if_neg hprec.ne', List.length_append, List.length_replicate,
    List.length_cons, hfraction]
  omega

theorem padRight_length (width : Nat) (s : List Char) :
    (padRight width s).length = max width s.length := by
  simp only [padRight, List.length_append, List.length_replicate]
  omega

end Vzgot.Stdio
