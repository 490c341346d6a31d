import Vzgot.Cgroup.Reported

/-!
# The order of the limits

Each procedure that stores a limit scales a total of the host with a ratio, cuts the
product to an integer and then applies its own bounds. A larger ratio never stores a
smaller value, except in `sys_set_cont_usage` (`lib/utlsys.c`): a usage that is cut to zero
is replaced by a quarter of `SAMPLE`, which is more than what many larger ratios give
(`setLimit_ordered_iff`).
-/

set_option autoImplicit false

namespace Vzgot.Cgroup

open Vzgot.Stdio

/-! ## What is written -/

/-- Value of a text in a register: a number, or infinity for `max`. -/
def textValue (text : List Char) : Option (WithTop Nat) :=
  if "max".toList <+: text then some ⊤ else (scanNat text).map fun n => (n : WithTop Nat)

/-- Register of the container that the limit is for. -/
def Limit.control : Limit → Register
  | .pidmax => .pidsMax
  | .memmax => .memoryMax
  | .swapmax => .swapMax
  | .numcpu => .cpusetCpus
  | .pwrcpu => .cpuWeight
  | .maxcpu => .cpuMax

/-- Value that a step writes to the register, if it comes to write it. -/
def Done.value (d : Done) (register : Register) : Option (WithTop Nat) :=
  (d.stores.find? fun w => w.register = register).bind fun w => textValue w.text

/-- Value that is written for the limit, when the variable has the text `value`. -/
def limitValue (m : Machine) (contname : List Char) (env : Env) (lim : Limit)
    (value : List Char) : Option (WithTop Nat) :=
  (setLimit m contname env value lim).bind fun d => d.value lim.control

/-- The value written for the one text is not larger than the value written for the other. -/
def Ordered (m : Machine) (contname : List Char) (env : Env) (lim : Limit)
    (value₁ value₂ : List Char) : Prop :=
  ∀ x₁ x₂, limitValue m contname env lim value₁ = some x₁ →
    limitValue m contname env lim value₂ = some x₂ → x₁ ≤ x₂

/-- A ratio of the CPU usage is not cut to zero, unless the larger ratio is, or the larger
ratio gives at least a quarter of `SAMPLE`. Nothing is written when `cpu.max` cannot be
read or the container has no CPU. -/
def Limit.InOrder (m : Machine) (ratio₁ ratio₂ : Rat) : Limit → Prop
  | .maxcpu => m.cpuMaxReadable = false ∨ m.numcpu = 0 ∨ 1 ≤ ratio₁ * m.numcpu * 1000 ∨
      ratio₂ * m.numcpu * 1000 < 1 ∨ 25000 ≤ ratio₂ * m.numcpu * 1000
  | _ => True

/-! ## Texts -/

theorem textValue_max (rest : List Char) : textValue ("max".toList ++ rest) = some ⊤ :=
  if_pos (List.prefix_append _ _)

/-- A number, up to a character that is no digit. -/
theorem textValue_decimal (n : Nat) {rest : List Char}
    (hrest : ∀ c ∈ rest.head?, c.isDigit = false) :
    textValue (decimal n ++ rest) = some (n : WithTop Nat) := by
  have hmax : ¬ "max".toList <+: decimal n ++ rest := by
    obtain ⟨d, ds, hd⟩ := List.exists_cons_of_ne_nil (Nat.toDigits_ne_nil (n := n) (b := 10))
    rw [decimal, hd]
    intro h
    have hm : 'm' = d := (List.cons_prefix_cons.mp h).1
    have hdigit : d.isDigit = true := isDigit_of_mem_toDigits (n := n) (hd ▸ List.mem_cons_self)
    rw [← hm] at hdigit
    exact absurd hdigit (by decide)
  rw [textValue, if_neg hmax, decimal,
    scanNat_digits Nat.toDigits_ne_nil (fun _ => isDigit_of_mem_toDigits) hrest,
    Nat.ofDigitChars_ten_toDigits]
  rfl

theorem textValue_number (n : Nat) : textValue (decimal n) = some (n : WithTop Nat) := by
  have h := @textValue_decimal n [] (by simp)
  rwa [List.append_nil] at h

theorem toUvlong_eq_floor {q : Rat} (h : 0 ≤ q) : toUvlong q = ⌊q⌋.toNat := by
  rw [toUvlong, toLong_eq_floor h]

theorem toUvlong_mono {q r : Rat} (hq : 0 ≤ q) (h : q ≤ r) : toUvlong q ≤ toUvlong r := by
  rw [toUvlong_eq_floor hq, toUvlong_eq_floor (hq.trans h)]
  exact Int.toNat_le_toNat (Int.floor_mono h)

/-- A share of a total, in hundredths, grows with the ratio. -/
theorem share_le {total r₁ r₂ : Rat} (htotal : 0 ≤ total) (h : r₁ ≤ r₂) :
    total * r₁ / 100 ≤ total * r₂ / 100 :=
  div_le_div_of_nonneg_right (mul_le_mul_of_nonneg_left h htotal) (by norm_num)

theorem share_nonneg {total r : Rat} (htotal : 0 ≤ total) (h : 0 ≤ r) : 0 ≤ total * r / 100 :=
  div_nonneg (mul_nonneg htotal h) (by norm_num)

/-! ## The values of the five limits -/

section Values

variable {m : Machine} {contname : List Char} {env : Env} {value : List Char}

theorem limitValue_pidmax :
    limitValue m contname env .pidmax value = m.pidMax.map fun total : Nat =>
      ((max 100 (toUvlong (total * aplGetdouble value / 100)) : Nat) : WithTop Nat) := by
  simp only [limitValue, setLimit, prcSetpidsmax, Option.bind_some]
  cases m.pidMax with
  | none => rfl
  | some total =>
      have hmax : (max 100 (toLong (total * aplGetdouble value / 100))).toNat =
          max 100 (toUvlong (total * aplGetdouble value / 100)) := by
        rw [toUvlong]
        omega
      simp only [Done.value, Limit.control, Machine.put, List.find?_singleton, decide_true,
        if_true, Option.bind_some, textValue_number, hmax, Option.map_some]

theorem limitValue_memmax :
    limitValue m contname env .memmax value = (m.sysinfo false).map fun info =>
      ((max (32 * 1024 * 1024)
        (toUvlong ((info.totalram * info.memUnit % 2 ^ 64 : Nat) * aplGetdouble value / 100)) : Nat) :
          WithTop Nat) := by
  simp only [limitValue, setLimit, prcSetmemmax, Option.bind_some]
  cases m.sysinfo false with
  | none => rfl
  | some info =>
      simp [Done.value, Limit.control, Machine.put, textValue_number]

theorem limitValue_swapmax :
    limitValue m contname env .swapmax value = (m.sysinfo true).map fun info =>
      ((toUvlong ((info.totalswap * info.memUnit % 2 ^ 64 : Nat) * aplGetdouble value / 100) : Nat) :
        WithTop Nat) := by
  simp only [limitValue, setLimit, prcSetmemmax, Option.bind_some]
  cases m.sysinfo true with
  | none => rfl
  | some info =>
      simp [Done.value, Limit.control, Machine.put, textValue_number]

theorem limitValue_pwrcpu :
    limitValue m contname env .pwrcpu value = m.parentWeight.map fun total : Nat =>
      ((min 10000 (max 1 (toUvlong (total * aplGetdouble value / 100))) : Nat) : WithTop Nat) := by
  have hnewline : ∀ c ∈ ['\n'].head?, c.isDigit = false := by
    rintro c ⟨⟩
    rfl
  have htext : ∀ n : Nat, textValue (decimal n ++ ['\n']) = some (n : WithTop Nat) := fun n =>
    textValue_decimal n hnewline
  simp only [limitValue, setLimit, sysSetContWeight, Option.bind_some]
  cases m.parentWeight with
  | none => cases env.cpuweight <;> simp [Done.value, Limit.control, Machine.put]
  | some total => cases env.cpuweight <;> simp [Done.value, Limit.control, Machine.put, htext]

/-- The usage for a ratio, with `max` from the number of CPUs on. -/
def usageValue (numcpu computed : Nat) : WithTop Nat :=
  if numcpu * 100000 ≤ (if computed = 0 then 25000 else computed) then ⊤
  else ((if computed = 0 then 25000 else computed : Nat) : WithTop Nat)

theorem limitValue_maxcpu (hread : m.cpuMaxReadable = true) (hnum : m.numcpu ≠ 0) :
    limitValue m contname env .maxcpu value = some (usageValue m.numcpu
      (toUvlong (aplGetdouble value * m.numcpu * 100000 / 100))) := by
  simp only [limitValue, setLimit, sysSetContUsage, Option.bind_some, hread, if_neg hnum,
    Bool.true_eq_false, if_false, usageValue]
  generalize (if toUvlong (aplGetdouble value * m.numcpu * 100000 / 100) = 0 then 25000
    else toUvlong (aplGetdouble value * m.numcpu * 100000 / 100)) = usage
  have hvalue : ∀ (isok : Bool) (consigne : List Char), (Done.mk isok [m.put .cpuMax
      (slashRegister contname "cpu.max") (consigne ++ ' ' :: decimal 100000 ++ ['\n'])]).value
        (Limit.control .maxcpu) = textValue (consigne ++ ' ' :: decimal 100000 ++ ['\n']) := by
    intro isok consigne
    simp [Done.value, Limit.control, Machine.put]
  have htext : textValue ((if m.numcpu * 100000 ≤ usage then "max".toList else decimal usage) ++
      ' ' :: decimal 100000 ++ ['\n']) =
      some (if m.numcpu * 100000 ≤ usage then ⊤ else (usage : WithTop Nat)) := by
    split
    · rw [List.append_assoc, textValue_max]
    · rw [List.append_assoc, textValue_decimal usage (by simp)]
  split
  · rw [hvalue, htext]
  · rw [hvalue, htext]

theorem limitValue_maxcpu_none (h : m.cpuMaxReadable = false ∨ m.numcpu = 0) :
    limitValue m contname env .maxcpu value = none := by
  simp only [limitValue, setLimit, sysSetContUsage, Option.bind_some]
  rcases h with h | h
  · rw [if_pos h]
    rfl
  · split
    · rfl
    · rfl

end Values

/-! ## The order -/

theorem toUvlong_eq_zero_iff {q : Rat} (h : 0 ≤ q) : toUvlong q = 0 ↔ q < 1 := by
  rw [toUvlong_eq_floor h, Int.toNat_eq_zero, ← Int.lt_add_one_iff, zero_add, Int.floor_lt,
    Int.cast_one]

theorem le_toUvlong_iff {q : Rat} (h : 0 ≤ q) (n : Nat) : n ≤ toUvlong q ↔ n ≤ q := by
  rw [toUvlong_eq_floor h, Int.le_toNat (Int.floor_nonneg.mpr h), Int.le_floor, Int.cast_natCast]

/-- The replaced usage is the only one out of order. -/
theorem usageValue_le_iff {n a b : Nat} (hn : n ≠ 0) (hab : a ≤ b) :
    usageValue n a ≤ usageValue n b ↔ a ≠ 0 ∨ b = 0 ∨ 25000 ≤ b := by
  have hquarter : ¬ n * 100000 ≤ 25000 := by omega
  by_cases ha : a = 0
  · by_cases hb : b = 0
    · simp [ha, hb]
    · rw [usageValue, usageValue, if_pos ha, if_neg hb, if_neg hquarter]
      by_cases hmax : n * 100000 ≤ b
      · rw [if_pos hmax]
        exact iff_of_true le_top (Or.inr (Or.inr (by omega)))
      · rw [if_neg hmax, Nat.cast_le]
        simp [ha, hb]
  · have hb : b ≠ 0 := by omega
    rw [usageValue, usageValue, if_neg ha, if_neg hb]
    refine iff_of_true ?_ (Or.inl ha)
    by_cases hmax : n * 100000 ≤ b
    · rw [if_pos hmax]
      exact le_top
    · rw [if_neg hmax, if_neg (by omega), Nat.cast_le]
      exact hab

section Order

variable {m : Machine} {contname : List Char} {env : Env} {value₁ value₂ : List Char}

/-- Values of one form are in order when the numbers are. -/
theorem ordered_of_map {α : Type} {lim : Limit} {answer : Option α} {f : List Char → α → Nat}
    (hvalue : ∀ value, limitValue m contname env lim value =
      answer.map fun total => (f value total : WithTop Nat))
    (hle : ∀ total, f value₁ total ≤ f value₂ total) :
    Ordered m contname env lim value₁ value₂ := by
  intro x₁ x₂ h₁ h₂
  rw [hvalue] at h₁ h₂
  obtain ⟨total, htotal, rfl⟩ := Option.map_eq_some_iff.mp h₁
  obtain ⟨total', htotal', rfl⟩ := Option.map_eq_some_iff.mp h₂
  obtain rfl : total = total' := Option.some.inj (htotal.symm.trans htotal')
  exact WithTop.coe_le_coe.mpr (hle total)

variable (h₀ : 0 ≤ aplGetdouble value₁) (hle : aplGetdouble value₁ ≤ aplGetdouble value₂)
include h₀ hle

theorem scaled_le (total : Nat) : toUvlong (total * aplGetdouble value₁ / 100) ≤
    toUvlong (total * aplGetdouble value₂ / 100) :=
  toUvlong_mono (share_nonneg total.cast_nonneg h₀) (share_le total.cast_nonneg hle)

/-- The usage is in order just for the ratios that `InOrder` names. -/
theorem ordered_maxcpu_iff : Ordered m contname env .maxcpu value₁ value₂ ↔
    Limit.InOrder m (aplGetdouble value₁) (aplGetdouble value₂) .maxcpu := by
  by_cases hwritten : m.cpuMaxReadable = false ∨ m.numcpu = 0
  · refine iff_of_true (fun x₁ x₂ h₁ => ?_) ?_
    · rw [limitValue_maxcpu_none hwritten] at h₁
      cases h₁
    · rcases hwritten with h | h
      · exact Or.inl h
      · exact Or.inr (Or.inl h)
  obtain ⟨hread, hnum⟩ := not_or.mp hwritten
  rw [Bool.not_eq_false] at hread
  have hcast : (0 : Rat) ≤ m.numcpu := Nat.cast_nonneg _
  have hsample : ∀ r : Rat, r * m.numcpu * 100000 / 100 = r * m.numcpu * 1000 := fun r => by ring
  have hpos : 0 ≤ aplGetdouble value₁ * m.numcpu * 1000 :=
    mul_nonneg (mul_nonneg h₀ hcast) (by norm_num)
  have hmul : aplGetdouble value₁ * m.numcpu * 1000 ≤ aplGetdouble value₂ * m.numcpu * 1000 :=
    mul_le_mul_of_nonneg_right (mul_le_mul_of_nonneg_right hle hcast) (by norm_num)
  have hordered : Ordered m contname env .maxcpu value₁ value₂ ↔
      usageValue m.numcpu (toUvlong (aplGetdouble value₁ * m.numcpu * 1000)) ≤
        usageValue m.numcpu (toUvlong (aplGetdouble value₂ * m.numcpu * 1000)) := by
    simp only [Ordered, limitValue_maxcpu hread hnum, hsample, Option.some.injEq]
    exact ⟨fun h => h _ _ rfl rfl, by rintro h x₁ x₂ rfl rfl; exact h⟩
  have hquarter := le_toUvlong_iff (hpos.trans hmul) 25000
  rw [hordered, usageValue_le_iff hnum (toUvlong_mono hpos hmul), Ne, toUvlong_eq_zero_iff hpos,
    toUvlong_eq_zero_iff (hpos.trans hmul), hquarter, not_lt]
  simp [Limit.InOrder, hread, hnum]

end Order

/-- The weight that is written is one that the kernel takes. -/
theorem weight_range {m : Machine} {contname : List Char} {env : Env} {value : List Char}
    {x : WithTop Nat} (h : limitValue m contname env .pwrcpu value = some x) :
    1 ≤ x ∧ x ≤ 10000 := by
  rw [limitValue_pwrcpu] at h
  obtain ⟨total, -, rfl⟩ := Option.map_eq_some_iff.mp h
  constructor
  · exact_mod_cast (by omega : 1 ≤ min 10000 (max 1 (toUvlong (total * aplGetdouble value / 100))))
  · exact_mod_cast Nat.min_le_left 10000 (max 1 (toUvlong (total * aplGetdouble value / 100)))

/-- A larger ratio never stores a smaller value, just when `InOrder` holds for the limit. -/
theorem setLimit_ordered_iff (m : Machine) (contname : List Char) (env : Env) {lim : Limit}
    (hlim : lim ≠ .numcpu) {value₁ value₂ : List Char} (h₀ : 0 ≤ aplGetdouble value₁)
    (hle : aplGetdouble value₁ ≤ aplGetdouble value₂) :
    (Ordered m contname env lim value₁ value₂ ↔
      lim.InOrder m (aplGetdouble value₁) (aplGetdouble value₂)) ∧
      ∀ value x, limitValue m contname env .pwrcpu value = some x → 1 ≤ x ∧ x ≤ 10000 := by
  refine ⟨?_, fun value x => weight_range⟩
  cases lim with
  | pidmax =>
      refine iff_of_true (ordered_of_map (fun _ => limitValue_pidmax) fun total => ?_) trivial
      exact max_le_max_left 100 (scaled_le h₀ hle total)
  | memmax =>
      refine iff_of_true (ordered_of_map (fun _ => limitValue_memmax) fun info => ?_) trivial
      exact max_le_max_left _ (scaled_le h₀ hle _)
  | swapmax =>
      refine iff_of_true (ordered_of_map (fun _ => limitValue_swapmax) fun info => ?_) trivial
      exact scaled_le h₀ hle _
  | numcpu => exact absurd rfl hlim
  | pwrcpu =>
      refine iff_of_true (ordered_of_map (fun _ => limitValue_pwrcpu) fun total => ?_) trivial
      exact min_le_min_left _ (max_le_max_left _ (scaled_le h₀ hle total))
  | maxcpu => exact ordered_maxcpu_iff h₀ hle

/-- An environment without a weight of its own. -/
def noWeight : Env := ⟨fun _ => none, none⟩

theorem setLimit_ordered_half :
    (Ordered (plainMachine fun _ => .whole) "web".toList noWeight .maxcpu "50.0".toList
        "95.0".toList ↔
      Limit.InOrder (plainMachine fun _ => .whole) (aplGetdouble "50.0".toList)
        (aplGetdouble "95.0".toList) .maxcpu) ∧
      ∀ value x, limitValue (plainMachine fun _ => .whole) "web".toList noWeight .pwrcpu value =
        some x → 1 ≤ x ∧ x ≤ 10000 :=
  setLimit_ordered_iff _ _ _ (by decide) (by decide +kernel) (by decide +kernel)

/-- With one CPU, no usage at all is taken for a quarter of the CPU, more than one percent. -/
theorem setLimit_not_ordered :
    (aplGetdouble "0.0".toList = 0 ∧ aplGetdouble "1.0".toList = 1) ∧
      limitValue (plainMachine fun _ => .whole) "web".toList noWeight .maxcpu "0.0".toList =
        some 25000 ∧
      limitValue (plainMachine fun _ => .whole) "web".toList noWeight .maxcpu "1.0".toList =
        some 1000 ∧
      ¬ Ordered (plainMachine fun _ => .whole) "web".toList noWeight .maxcpu "0.0".toList
        "1.0".toList := by
  have hzero : aplGetdouble "0.0".toList = 0 := by decide +kernel
  have hone : aplGetdouble "1.0".toList = 1 := by decide +kernel
  have hvalue : ∀ value, limitValue (plainMachine fun _ => .whole) "web".toList noWeight .maxcpu
      value = some (usageValue 1 (toUvlong (aplGetdouble value * (1 : Nat) * 100000 / 100))) :=
    fun value => limitValue_maxcpu rfl (by decide)
  have hfirst := hvalue "0.0".toList
  have hsecond := hvalue "1.0".toList
  rw [hzero] at hfirst
  rw [hone] at hsecond
  have hquarter : usageValue 1 (toUvlong (0 * (1 : Nat) * 100000 / 100)) = 25000 := by
    decide +kernel
  have hpercent : usageValue 1 (toUvlong (1 * (1 : Nat) * 100000 / 100)) = 1000 := by
    decide +kernel
  rw [hquarter] at hfirst
  rw [hpercent] at hsecond
  refine ⟨⟨hzero, hone⟩, hfirst, hsecond, fun h => ?_⟩
  exact absurd (h _ _ hfirst hsecond) (by decide)

end Vzgot.Cgroup
