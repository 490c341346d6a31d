import Mathlib.Algebra.Order.Field.Basic
import Mathlib.Tactic.NormNum
import Vzgot.Library.Scanf
import Vzgot.Online.Resolve

/-!
# Memory figures

`get_memory_info` (`lib/utlsys.c`) reads the limit and the use of the memory or the swap
space of the host or of a container, and stores them with the unit to show them in.
`sys_meminf_printf` divides both by the quotient of the unit, and `do_resolv` shows the text.

A reading that succeeds stores the quotient of the largest unit that the limit fills, up to
the last one (`fits_meminf`). A reading that fails stores nothing, and its result is not
looked at: the quotient of a new status is zero.
-/

set_option autoImplicit false

namespace Vzgot.Online

open Vzgot.Stdio Vzgot.Status

/-! ## The procedures -/

/-- `MEMINF` -/
structure MemInf where
  max : UVlong
  used : UVlong
  quotient : UVlong
  unit : List Char

/-- As `calloc` leaves it. -/
def MemInf.zero : MemInf := ⟨0, 0, 0, []⟩

/-- The files of a kind of memory, when they can be opened, and the totals that `sysinfo`
gives. -/
structure MemFiles where
  sysinfo : Option (MemEnu → UVlong)
  max : Option (List Char)
  current : Option (List Char)

/-- `unites` -/
def unites : Nat → List Char
  | 0 => []
  | 1 => ['K']
  | 2 => ['M']
  | _ => ['G']

/-- The loop over the units, with the turns that are left: quotient and index. -/
def scale : Nat → UVlong → UVlong → Nat → UVlong × Nat
  | 0, _, quotient, index => (quotient, index)
  | left + 1, max, quotient, index =>
      if 1024 ≤ max then scale left (max / 1024) (quotient * 1024) (index + 1) else (quotient, index)

/-- `line` of phase 4: the word `max` stands for the total. -/
def maxLine (total : UVlong) (line : List Char) : List Char :=
  if line = "max\n".toList then printNat false 0 total.toNat ++ ['\n'] else line

/-- Phases 0 to 7: limit and use, when all of them can be read. -/
def readMemory (files : MemFiles) (kind : MemEnu) : Option (UVlong × UVlong) :=
  files.sysinfo.bind fun total =>
    (files.max.bind (fgets 100)).bind fun line =>
      (scanUlong (maxLine (total kind) (cstr line))).bind fun max =>
        (files.current.bind (fgets 100)).bind fun line =>
          (scanUlong (cstr line)).map fun used => (max.1, used.1)

/-- Phase 8 -/
def meminf (max used : UVlong) : MemInf :=
  if 0 < max then
    let r := scale 3 max 1 0
    ⟨max, used, r.1, unites r.2⟩
  else ⟨max, used, 1, []⟩

/-- `get_memory_info`; its result is always false. -/
def getMemoryInfo (files : MemFiles) (kind : MemEnu) (mems : MemInf) : MemInf :=
  match readMemory files kind with
  | some (max, used) => meminf max used
  | none => mems

/-- `%1.2f` of a quotient of doubles; nothing keeps the divisor from being zero. -/
def printQuotient (n divisor : UVlong) : List Char :=
  if divisor = 0 then if n = 0 then "-nan".toList else "inf".toList
  else printFixed 1 2 ((n.toNat : Rat) / divisor.toNat)

/-- `sys_meminf_printf`, into an array of 60 characters. -/
def sysMeminfPrintf (mems : MemInf) : List Char :=
  (printQuotient mems.used mems.quotient ++ '/' :: printQuotient mems.max mems.quotient ++
    ' ' :: mems.unit ++ "bytes".toList).take 59

/-- The figures behind a key of the template. -/
def memKey : TplEnum → Option (CpuEnu × MemEnu)
  | .cmem => some (.cont, .mem)
  | .cswap => some (.cont, .swap)
  | .hmem => some (.host, .mem)
  | .hswap => some (.host, .swap)
  | _ => none

/-- `do_resolv` shows these figures. -/
theorem argument_memKey {st : Content} {mems : CpuEnu → MemEnu → MemInf}
    (hst : st.meminf = fun c m => sysMeminfPrintf (mems c m)) {code : TplEnum} {k : CpuEnu × MemEnu}
    (hk : memKey code = some k) :
    argument st code = some (.text (some (sysMeminfPrintf (mems k.1 k.2)))) := by
  cases code <;> cases hk <;> simp [argument, hst]

/-! ## The quotient -/

/-- The quotient is a power of 1024 with the unit beside it, and the limit fills less than
1024 of the unit, unless it is the last one. -/
def MemInf.Fits (m : MemInf) : Prop :=
  ∃ k ≤ 3, m.quotient.toNat = 1024 ^ k ∧ m.unit = unites k ∧
    ((m.max.toNat : Rat) / m.quotient.toNat < 1024 ∨ k = 3)

theorem scale_eq (left : Nat) {max quotient : UVlong} {index : Nat} (hindex : index + left = 3)
    (hquotient : quotient.toNat = 1024 ^ index) {total : Nat}
    (hmax : max.toNat = total / 1024 ^ index) :
    ∃ k ≤ 3, (scale left max quotient index).1.toNat = 1024 ^ k ∧
      (scale left max quotient index).2 = k ∧ (total / 1024 ^ k < 1024 ∨ k = 3) := by
  induction left generalizing max quotient index with
  | zero => exact ⟨index, by omega, hquotient, rfl, Or.inr (by omega)⟩
  | succ left ih =>
      rw [scale]
      split
      · rename_i hlarge
        have hnext : (quotient * 1024).toNat = 1024 ^ (index + 1) := by
          rw [BitVec.toNat_mul, hquotient, Nat.pow_succ]
          apply Nat.mod_eq_of_lt
          calc 1024 ^ index * 1024 = 1024 ^ (index + 1) := (Nat.pow_succ ..).symm
            _ ≤ 1024 ^ 3 := Nat.pow_le_pow_right (by decide) (by omega)
            _ < 2 ^ 64 := by decide
        have hdiv : (max / 1024).toNat = total / 1024 ^ (index + 1) := by
          rw [BitVec.toNat_udiv, hmax, Nat.pow_succ, ← Nat.div_div_eq_div_mul]
          rfl
        exact ih (by omega) hnext hdiv
      · rename_i hsmall
        have hlt : max.toNat < 1024 := by
          rw [BitVec.le_def, not_le] at hsmall
          exact hsmall
        exact ⟨index, by omega, hquotient, rfl, Or.inl (hmax ▸ hlt)⟩

theorem fits_meminf (max used : UVlong) : (meminf max used).Fits := by
  rw [meminf]
  split
  · obtain ⟨k, hk, hquotient, hindex, hfits⟩ :=
      @scale_eq 3 max 1 0 rfl rfl max.toNat (by simp)
    refine ⟨k, hk, hquotient, by rw [← hindex], hfits.imp_left fun hlt => ?_⟩
    have hpos : 0 < 1024 ^ k := Nat.pow_pos (by decide)
    have hbelow : max.toNat < 1024 * 1024 ^ k := (Nat.div_lt_iff_lt_mul hpos).mp hlt
    simp only [hquotient]
    rw [div_lt_iff₀ (by exact_mod_cast hpos)]
    exact_mod_cast hbelow
  · rename_i hzero
    obtain rfl : max = 0 := by simpa using hzero
    exact ⟨0, by decide, rfl, rfl, Or.inl (by simp)⟩

end Vzgot.Online
