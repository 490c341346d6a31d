import Vzgot.Library.Fixed
import Vzgot.Status.Update

/-!
# Bandwidth figures

`sys_bandwidth_printf` shows two counters, or two speeds, each scaled by `get_unit` to one
of five units. `get_unit` compares its index with the size of the table in bytes, forty,
so a figure of `1024^5` or more takes it out of the table (`getUnit_iff`); below that the
text always has the same length (`sysBandwidthPrintf_iff`).
-/

set_option autoImplicit false

namespace Vzgot.Status

open Vzgot.Stdio

/-- `unites` -/
def unites : List (List Char) := [[' '], ['K'], ['M'], ['G'], ['T']]

/-- `sizeof(unites)`, an array of pointers. -/
def sizeofUnites : Nat := unites.length * 8

/-- The loop of `get_unit`, with `left` turns before the index reaches its bound. -/
def scale : Nat → Rat → Nat → Rat × Nat
  | 0, value, index => (value, index)
  | left + 1, value, index =>
      if 1024 ≤ value then scale left (value / 1024) (index + 1) else (value, index)

/-- `get_unit`: the scaled value and the index of the unit. -/
def getUnit (value : Rat) : Rat × Nat := scale sizeofUnites value 0

/-- The figure that is shown: the counter, or the speed as an integer. -/
def valeur (b : BanTyp) (speed : Bool) : Nat :=
  if speed then ⌊b.speed⌋.toNat else b.cumulated.toNat

/-- `prec` -/
def prec (res : Rat) : Nat := (2 - if 1000 ≤ res then 1 else 0) - if 10000 ≤ res then 1 else 0

/-- One of the two strings `tpl`; there is none when the unit lies outside the table. -/
def tpl (b : BanTyp) (speed : Bool) : Option (List Char) :=
  let r := getUnit (valeur b speed)
  unites[r.2]?.map fun unit =>
    (printFixed 7 (prec r.1) r.1 ++ unit ++ ['B'] ++ if speed then ['/', 's'] else []).take 14

/-- `sys_bandwidth_printf` -/
def sysBandwidthPrintf (bandwidth : Option (Band → BanTyp)) (speed : Bool) : Option (List Char) :=
  match bandwidth with
  | none => some "---- Bytes;---- bytes".toList
  | some b =>
      let large := if speed then 10 else 9
      (tpl (b .rx) speed).bind fun rx => (tpl (b .tx) speed).map fun tx =>
        (padRight large rx ++ [' ', '/', ' '] ++ padRight large tx).take 59

/-- Length of the text. -/
def bandwidthLength (speed : Bool) : Nat := if speed then 25 else 21

/-- The unit of the figure is one of the table, and its value is scaled to it. -/
def Scaled (value : Nat) : Prop :=
  (getUnit value).2 < unites.length ∧ (getUnit value).1 = value / 1024 ^ (getUnit value).2

instance (value : Nat) : Decidable (Scaled value) :=
  inferInstanceAs (Decidable ((getUnit value).2 < unites.length ∧
    (getUnit value).1 = (value : Rat) / 1024 ^ (getUnit value).2))

/-! ## The unit -/

/-- The loop divides while the value is large, up to its bound. -/
theorem scale_spec (left : Nat) (value : Rat) (index : Nat) :
    ∃ k ≤ left, scale left value index = (value / 1024 ^ k, index + k) ∧
      (k < left → value / 1024 ^ k < 1024) ∧ ∀ j < k, 1024 ≤ value / 1024 ^ j := by
  induction left generalizing value index with
  | zero => exact ⟨0, Nat.le_refl 0, by simp [scale], by simp, by simp⟩
  | succ left ih =>
      rw [scale]
      split
      · rename_i hlarge
        obtain ⟨k, hk, heq, hstop, hgo⟩ := ih (value / 1024) (index + 1)
        have hpow : ∀ j, value / 1024 / 1024 ^ j = value / 1024 ^ (j + 1) := by
          intro j
          rw [div_div, pow_succ']
        refine ⟨k + 1, Nat.succ_le_succ hk, ?_, fun hlt => ?_, fun j hj => ?_⟩
        · rw [heq, hpow, Nat.add_assoc, Nat.add_comm 1 k]
        · rw [← hpow]
          exact hstop (Nat.lt_of_succ_lt_succ hlt)
        · cases j with
          | zero => simpa using hlarge
          | succ j =>
              rw [← hpow]
              exact hgo j (Nat.lt_of_succ_lt_succ hj)
      · rename_i hsmall
        refine ⟨0, Nat.zero_le _, by simp, fun _ => ?_, by simp⟩
        simpa using hsmall

/-- The index is one of the table exactly for a figure below `1024^5`. -/
theorem getUnit_iff (value : Nat) : Scaled value ↔ value < 2 ^ 50 := by
  obtain ⟨k, hk, heq, hstop, hgo⟩ := scale_spec sizeofUnites value 0
  have hindex : (getUnit value).2 = k := by rw [getUnit, heq, Nat.zero_add]
  have hvalue : (getUnit value).1 = value / 1024 ^ k := by rw [getUnit, heq]
  have hlength : unites.length = 5 := rfl
  have hcast : (value : Rat) < 2 ^ 50 ↔ value < 2 ^ 50 := by exact_mod_cast Iff.rfl
  rw [Scaled, hindex, hvalue, and_iff_left rfl, hlength, ← hcast]
  constructor
  · intro hfive
    have hless := hstop (hfive.trans (by decide))
    rw [div_lt_iff₀ (by positivity)] at hless
    calc (value : Rat) < 1024 * 1024 ^ k := hless
      _ = 1024 ^ (k + 1) := (pow_succ' 1024 k).symm
      _ ≤ 1024 ^ 5 := pow_le_pow_right₀ (by norm_num) (by omega)
      _ = 2 ^ 50 := by norm_num
  · intro hless
    by_contra hmany
    have hlarge := hgo 4 (by omega)
    rw [le_div_iff₀ (by positivity)] at hlarge
    norm_num at hlarge hless
    linarith

/-- A value of the table is below 1024. -/
theorem Scaled.lt {value : Nat} (h : Scaled value) : (getUnit value).1 < 1024 := by
  obtain ⟨k, -, heq, hstop, -⟩ := scale_spec sizeofUnites value 0
  have hindex : (getUnit value).2 = k := by rw [getUnit, heq, Nat.zero_add]
  rw [getUnit, heq]
  exact hstop ((hindex ▸ h.1).trans (by decide))

/-! ## The text -/

/-- A value below 1024 fills seven places. -/
theorem printFixed_prec {res : Rat} (h : res < 1024) : (printFixed 7 (prec res) res).length = 7 := by
  by_cases hthousand : 1000 ≤ res
  · have hprec : prec res = 1 := by
      rw [prec, if_pos hthousand, if_neg (not_le.mpr (h.trans (by norm_num)))]
    rw [hprec]
    refine printFixed_length (k := 4) (by decide) (by decide) (by decide) ?_
    push_cast
    linarith
  · have hprec : prec res = 2 := by
      rw [prec, if_neg hthousand, if_neg (not_le.mpr (h.trans (by norm_num)))]
    rw [hprec]
    refine printFixed_length (k := 4) (by decide) (by decide) (by decide) ?_
    push_cast
    linarith

/-- Every unit is one letter. -/
theorem length_of_unites {index : Nat} {unit : List Char} (h : unites[index]? = some unit) :
    unit.length = 1 := by
  have hall : ∀ u ∈ unites, u.length = 1 := by decide
  exact hall unit (List.mem_of_getElem? h)

/-- A figure in the table gives a string of constant length, any other one none. -/
theorem tpl_spec (b : BanTyp) (speed : Bool) :
    if Scaled (valeur b speed) then
      ∃ text, tpl b speed = some text ∧ text.length = if speed then 11 else 9
    else tpl b speed = none := by
  split
  · rename_i hscaled
    obtain ⟨unit, hunit⟩ : ∃ unit, unites[(getUnit (valeur b speed)).2]? = some unit :=
      ⟨_, List.getElem?_eq_getElem hscaled.1⟩
    rw [tpl, hunit]
    refine ⟨_, rfl, ?_⟩
    have hfixed := printFixed_prec hscaled.lt
    have hone := length_of_unites hunit
    cases speed with
    | true => simp [hfixed, hone]
    | false => simp [hfixed, hone]
  · rename_i hout
    have hindex : unites.length ≤ (getUnit (valeur b speed)).2 := by
      by_contra hin
      obtain ⟨k, -, heq, -, -⟩ := scale_spec sizeofUnites (valeur b speed) 0
      exact hout ⟨not_le.mp hin, by rw [getUnit, heq, Nat.zero_add]⟩
    simp only [tpl, List.getElem?_eq_none hindex, Option.map_none]

/-- Both figures get a unit of the table and the value that belongs to it, and the text has
the length that it always has, if and only if both figures are below `2^50`. -/
theorem sysBandwidthPrintf_iff (b : Band → BanTyp) (speed : Bool) :
    ((∀ band, Scaled (valeur (b band) speed)) ∧
      ∃ text, sysBandwidthPrintf (some b) speed = some text ∧
        text.length = bandwidthLength speed) ↔
      ∀ band, valeur (b band) speed < 2 ^ 50 := by
  simp only [← getUnit_iff]
  refine and_iff_left_of_imp fun hscaled => ?_
  have htpl : ∀ band, ∃ text, tpl (b band) speed = some text ∧
      text.length = if speed then 11 else 9 := by
    intro band
    have hspec := tpl_spec (b band) speed
    rwa [if_pos (hscaled band)] at hspec
  obtain ⟨rx, hrx, hrxlen⟩ := htpl .rx
  obtain ⟨tx, htx, htxlen⟩ := htpl .tx
  have htext : sysBandwidthPrintf (some b) speed =
      some ((padRight (if speed then 10 else 9) rx ++ [' ', '/', ' '] ++
        padRight (if speed then 10 else 9) tx).take 59) := by
    simp only [sysBandwidthPrintf, hrx, htx, Option.bind_some, Option.map_some]
  refine ⟨_, htext, ?_⟩
  cases speed with
  | true =>
      simp only [if_true] at hrxlen htxlen
      simp [padRight_length, hrxlen, htxlen, bandwidthLength]
  | false =>
      simp only [Bool.false_eq_true, if_false] at hrxlen htxlen
      simp [padRight_length, hrxlen, htxlen, bandwidthLength]

/-- A counter of `2^50` bytes: the index of its unit is five. -/
theorem sysBandwidthPrintf_outside :
    (getUnit (valeur ⟨1125899906842624, 0⟩ false)).2 = 5 ∧ unites.length = 5 ∧
      ¬ Scaled (valeur ⟨1125899906842624, 0⟩ false) ∧
      sysBandwidthPrintf (some fun _ => ⟨1125899906842624, 0⟩) false = none := by
  have hindex : (getUnit (valeur ⟨1125899906842624, 0⟩ false)).2 = 5 := by decide +kernel
  refine ⟨hindex, rfl, ?_, by decide +kernel⟩
  rintro ⟨hin, -⟩
  rw [hindex] at hin
  exact absurd hin (by decide)

example : sysBandwidthPrintf (some fun _ => ⟨2048, 1000⟩) false =
    some "   2.00KB /    2.00KB".toList := by decide +kernel

end Vzgot.Status
