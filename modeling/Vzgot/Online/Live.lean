import Vzgot.Online.Memory
import Vzgot.Status.Cpustat

/-!
# The live status

`sys_update_cont_status` (`lib/utlsys.c`) with the figures that it reads from files: the
memory of the host and of the container, and their CPU statistics. `Live` is the status with
these figures; `sysUpdate_sta` says that the rest of it is what `sysUpdateContStatus` makes
of it.

A status is updated again and again, and shown by `do_resolv`. What it shows of a figure is
what the last reading that succeeded has left: the CPU time (`usage_run`) and the memory
(`quotient_run`). The idle time of a container with more CPU time than has passed wraps
around (`sysGetCpuIdle_iff`), and the quotient of a figure that has not been read yet is
zero (`quotients_pos_iff`).
-/

set_option autoImplicit false

namespace Vzgot.Online

open Vzgot.Stdio Vzgot.Status

/-! ## The status -/

/-- `STATYP` with the figures that are read from files. -/
structure Live where
  sta : StaTyp
  throttled : CpuEnu → UVlong
  nrThrottled : CpuEnu → BitVec 32
  start : UVlong
  numcpu : BitVec 32
  cpuidle : Rat
  mems : CpuEnu → MemEnu → MemInf

/-- `cpuinf` -/
def Live.cpuinf (s : Live) (c : CpuEnu) : CpuCounters :=
  { s.sta.cpuinf c with throttled := s.throttled c, nrThrottled := s.nrThrottled c }

/-- Answers of the system during one update; `now` is the time of day in microseconds. -/
structure LiveCalls where
  clock : Option TimeTic
  users : Option Nat
  memFiles : CpuEnu → MemEnu → MemFiles
  cpuFiles : CpuEnu → CpuFiles
  now : UVlong
  load : LoadCalls
  counters : CpuEnu → Band → Option UVlong

/-- `cpuinf` after both calls of `sys_get_cpustat`. -/
def Live.readCpu (s : Live) (u : LiveCalls) (c : CpuEnu) : CpuCounters :=
  (sysGetCpustat (u.cpuFiles c)).2.foldl CpuCounters.put (s.cpuinf c)

/-- The same update without the figures from files. -/
def LiveCalls.update (u : LiveCalls) (s : Live) : UpdateCalls where
  clock := u.clock
  users := u.users
  cpuinf c := (s.readCpu u c).toCpuInf
  load := u.load
  counters := u.counters

/-- `sys_new_cont_status`: the memory figures are as `calloc` leaves them. -/
def sysNewContStatus (sta : StaTyp) (cpu : CpuEnu → CpuCounters) (start : UVlong)
    (numcpu : BitVec 32) : Live where
  sta := { sta with cpuinf := fun c => (cpu c).toCpuInf }
  throttled c := (cpu c).throttled
  nrThrottled c := (cpu c).nrThrottled
  start := start
  numcpu := numcpu
  cpuidle := 0
  mems _ _ := MemInf.zero

/-- `working` of `sys_get_cpu_idle`, before it is taken as a signed number. -/
def working (start : UVlong) (numcpu : BitVec 32) (now : UVlong) : UVlong :=
  (now - start) * numcpu.setWidth 64

/-- `sys_get_cpu_idle`: the difference and its product with 100 are unsigned, the divisor is
signed. -/
def sysGetCpuIdle (start : UVlong) (numcpu : BitVec 32) (usage now : UVlong) : Rat :=
  ((working start numcpu now - usage) * 100).toNat / (working start numcpu now).toInt

/-- The update goes through when the clock and the number of users can be read. -/
def LiveCalls.Completes (u : LiveCalls) : Bool := u.clock.isSome && u.users.isSome

/-- `sys_update_cont_status` -/
def sysUpdate (st : LoadStatic) (s : Live) (u : LiveCalls) : Bool × LoadStatic × Live :=
  let r := sysUpdateContStatus st s.sta (u.update s)
  if u.Completes then
    (r.1, r.2.1, { s with
      sta := r.2.2
      mems := fun c m => getMemoryInfo (u.memFiles c m) m (s.mems c m)
      throttled := fun c => (s.readCpu u c).throttled
      nrThrottled := fun c => (s.readCpu u c).nrThrottled
      cpuidle := sysGetCpuIdle s.start s.numcpu (s.readCpu u .cont).usage u.now })
  else (r.1, r.2.1, { s with sta := r.2.2 })

/-- The state of a process: the static variables of the load average, and the status. -/
abbrev State := LoadStatic × Live

/-- The state after updates. -/
def run (s : State) (us : List LiveCalls) : State :=
  us.foldl (fun s u => (sysUpdate s.1 s.2 u).2) s

/-! ## One update -/

section Update

variable (st : LoadStatic) (s : Live) (u : LiveCalls)

theorem sysCalLoadavg_cpuinf (st : LoadStatic) (s : StaTyp) (r : LoadCalls) :
    (sysCalLoadavg st s r).2.2.cpuinf = s.cpuinf := by
  unfold sysCalLoadavg
  split
  · rfl
  · split
    · rfl
    · split
      · rfl
      · split <;> rfl

/-- The rest of the status is updated as before. -/
theorem sysUpdate_sta :
    (sysUpdate st s u).2.2.sta = (sysUpdateContStatus st s.sta (u.update s)).2.2 := by
  rw [sysUpdate]
  split <;> rfl

theorem sysUpdate_start : (sysUpdate st s u).2.2.start = s.start := by
  rw [sysUpdate]
  split <;> rfl

theorem sysUpdate_numcpu : (sysUpdate st s u).2.2.numcpu = s.numcpu := by
  rw [sysUpdate]
  split <;> rfl

theorem sysUpdate_fst : (sysUpdate st s u).1 = u.Completes := by
  unfold sysUpdate sysUpdateContStatus LiveCalls.Completes LiveCalls.update
  cases u.clock with
  | none => rfl
  | some cur => cases u.users <;> rfl

theorem sysUpdate_cpuinf (c : CpuEnu) :
    (sysUpdate st s u).2.2.cpuinf c = if u.Completes then s.readCpu u c else s.cpuinf c := by
  unfold sysUpdate sysUpdateContStatus LiveCalls.Completes LiveCalls.update Live.cpuinf
  cases u.clock with
  | none => rfl
  | some cur =>
      cases u.users with
      | none => rfl
      | some n => simp [sysCalLoadavg_cpuinf]

theorem sysUpdate_mems (c : CpuEnu) (m : MemEnu) :
    (sysUpdate st s u).2.2.mems c m =
      if u.Completes then getMemoryInfo (u.memFiles c m) m (s.mems c m) else s.mems c m := by
  rw [sysUpdate]
  split <;> rfl

end Update

/-! ## Runs -/

theorem run_concat (s : State) (us : List LiveCalls) (u : LiveCalls) :
    run s (us ++ [u]) = (sysUpdate (run s us).1 (run s us).2 u).2 := by
  rw [run, List.foldl_append]
  rfl

theorem run_start (s : State) (us : List LiveCalls) : (run s us).2.start = s.2.start := by
  induction us using List.reverseRecOn with
  | nil => rfl
  | append_singleton us u ih => rw [run_concat, sysUpdate_start, ih]

theorem run_numcpu (s : State) (us : List LiveCalls) : (run s us).2.numcpu = s.2.numcpu := by
  induction us using List.reverseRecOn with
  | nil => rfl
  | append_singleton us u ih => rw [run_concat, sysUpdate_numcpu, ih]

/-! ## The CPU time -/

/-- The CPU time that a reading of `cpu.stat` stores, if it stores one. -/
def usageRead (files : CpuFiles) : Option UVlong :=
  ((sysGetCpustat files).2.filterMap fun
    | .usage v => some v
    | _ => none).getLast?

/-- The CPU time of the container that has been read last. -/
def lastUsage (first : UVlong) (us : List LiveCalls) : UVlong :=
  us.foldl (fun v u => if u.Completes then (usageRead (u.cpuFiles .cont)).getD v else v) first

theorem lastUsage_concat (first : UVlong) (us : List LiveCalls) (u : LiveCalls) :
    lastUsage first (us ++ [u]) =
      if u.Completes then (usageRead (u.cpuFiles .cont)).getD (lastUsage first us)
      else lastUsage first us := by
  rw [lastUsage, List.foldl_append]
  rfl

theorem foldl_put_usage (stores : List Store) (c : CpuCounters) :
    (stores.foldl CpuCounters.put c).usage =
      ((stores.filterMap fun
        | .usage v => some v
        | _ => none).getLast?).getD c.usage := by
  induction stores generalizing c with
  | nil => rfl
  | cons v stores ih =>
      rw [List.foldl_cons, ih]
      cases v with
      | usage v =>
          rw [List.filterMap_cons, List.getLast?_cons, Option.getD_some]
          rfl
      | nrThrottled v => rfl
      | throttled v => rfl
      | pressure v => rfl

theorem usage_run (s : State) (us : List LiveCalls) :
    ((run s us).2.cpuinf .cont).usage = lastUsage (s.2.cpuinf .cont).usage us := by
  induction us using List.reverseRecOn with
  | nil => rfl
  | append_singleton us u ih =>
      rw [run_concat, sysUpdate_cpuinf, lastUsage_concat, ← ih]
      split
      · rw [Live.readCpu, foldl_put_usage, usageRead]
      · rfl

/-! ## The idle time -/

section Idle

variable {start now usage : UVlong} {numcpu : BitVec 32} (hlater : start < now)
  (hbound : (now.toNat - start.toNat) * numcpu.toNat * 100 < 2 ^ 63)

include hlater hbound in
theorem toNat_working :
    (working start numcpu now).toNat = (now.toNat - start.toNat) * numcpu.toNat := by
  have hsub : (now - start).toNat = now.toNat - start.toNat :=
    BitVec.toNat_sub_of_le (BitVec.le_of_lt hlater)
  have hcpu : (numcpu.setWidth 64).toNat = numcpu.toNat :=
    BitVec.toNat_setWidth_of_le (by decide)
  rw [working, BitVec.toNat_mul, hsub, hcpu, Nat.mod_eq_of_lt (by omega)]

/-- A product with 100 that has wrapped around is zero for multiples of `2 ^ 62`. -/
theorem wrapped_eq_zero_iff {d : Nat} (hd : d ≤ 2 ^ 64) :
    (2 ^ 64 - d) * 100 % 2 ^ 64 = 0 ↔ 2 ^ 62 ∣ d := by
  have hsum : 2 ^ 64 ∣ (2 ^ 64 - d) * 100 + d * 100 := by
    rw [← Nat.add_mul, Nat.sub_add_cancel hd]
    exact Nat.dvd_mul_right _ _
  have hcoprime : Nat.Coprime (2 ^ 62) 25 := Nat.Coprime.pow_left 62 (by decide)
  have hfour : d * 100 = d * 25 * 4 := by omega
  calc (2 ^ 64 - d) * 100 % 2 ^ 64 = 0
      ↔ 2 ^ 64 ∣ (2 ^ 64 - d) * 100 := (Nat.dvd_iff_mod_eq_zero ..).symm
    _ ↔ 2 ^ 64 ∣ d * 100 :=
        ⟨fun h => (Nat.dvd_add_right h).mp hsum, fun h => (Nat.dvd_add_left h).mp hsum⟩
    _ ↔ 2 ^ 62 ∣ d * 25 := by
        rw [hfour]
        exact Nat.mul_dvd_mul_iff_right (a := 2 ^ 62) (c := 4) (by decide)
    _ ↔ 2 ^ 62 ∣ d := ⟨hcoprime.dvd_of_dvd_mul_right, fun h => Nat.dvd_mul_right_of_dvd h 25⟩

/-- The idle time is right when the container has not used more CPU time than has passed, or
so much more that the wrapped product is zero. -/
theorem sysGetCpuIdle_eq_iff (hlater : start < now) (hcpu : 1 ≤ numcpu)
    (hbound : (now.toNat - start.toNat) * numcpu.toNat * 100 < 2 ^ 63) {w : Nat}
    (hw : w = (now.toNat - start.toNat) * numcpu.toNat) :
    sysGetCpuIdle start numcpu usage now = (100 * (w - min usage.toNat w : Nat) : Rat) / w ↔
      usage.toNat ≤ w ∨ 2 ^ 62 ∣ usage.toNat - w := by
  have hworking := toNat_working hlater hbound
  rw [← hw] at hworking hbound
  have hpos : 0 < w := by
    have hless : start.toNat < now.toNat := hlater
    have hone : 1 ≤ numcpu.toNat := hcpu
    rw [hw]
    exact Nat.mul_pos (by omega) hone
  have hint : (working start numcpu now).toInt = (w : Int) := by
    rw [BitVec.toInt_eq_toNat_of_lt (by omega), hworking]
  have hrat : (0 : Rat) < w := by exact_mod_cast hpos
  rw [sysGetCpuIdle, hint, Int.cast_natCast, div_left_inj' hrat.ne']
  by_cases hle : usage.toNat ≤ w
  · have hvalue : ((working start numcpu now - usage) * 100).toNat = 100 * (w - usage.toNat) := by
      have hsub : (working start numcpu now - usage).toNat = w - usage.toNat := by
        rw [← hworking]
        exact BitVec.toNat_sub_of_le (by rw [BitVec.le_def, hworking]; exact hle)
      have hhundred : (100 : UVlong).toNat = 100 := rfl
      rw [BitVec.toNat_mul, hsub, hhundred, Nat.mul_comm]
      exact Nat.mod_eq_of_lt (by omega)
    rw [hvalue, Nat.min_eq_left hle]
    exact iff_of_true (by push_cast; rfl) (Or.inl hle)
  · have hvalue : ((working start numcpu now - usage) * 100).toNat =
        (2 ^ 64 - (usage.toNat - w)) * 100 % 2 ^ 64 := by
      have hsub : (working start numcpu now - usage).toNat = 2 ^ 64 - (usage.toNat - w) := by
        rw [BitVec.toNat_sub, hworking]
        omega
      rw [BitVec.toNat_mul, hsub]
      rfl
    rw [or_iff_right hle, ← wrapped_eq_zero_iff (by omega), ← hvalue, Nat.min_eq_right (by omega),
      Nat.sub_self, Nat.cast_zero, mul_zero, Nat.cast_eq_zero]

end Idle

theorem idle_mem (w u : Nat) :
    (0 : Rat) ≤ (100 * (w - min u w : Nat) : Rat) / w ∧
      (100 * (w - min u w : Nat) : Rat) / w ≤ 100 := by
  refine ⟨by positivity, ?_⟩
  obtain rfl | hpos := Nat.eq_zero_or_pos w
  · simp
  · have hle : ((w - min u w : Nat) : Rat) ≤ w := by exact_mod_cast Nat.sub_le w _
    rw [div_le_iff₀ (by exact_mod_cast hpos)]
    exact mul_le_mul_of_nonneg_left hle (by norm_num)

/-- At any time behind any updates, the idle time is the percentage that the container has
not used exactly when the CPU time read last is not more than what has passed, or more by a
multiple of `2 ^ 62`. -/
theorem sysGetCpuIdle_iff (s : State) (us : List LiveCalls) {now : UVlong} (hlater : s.2.start < now)
    (hcpu : 1 ≤ s.2.numcpu)
    (hbound : (now.toNat - s.2.start.toNat) * s.2.numcpu.toNat * 100 < 2 ^ 63) :
    let t := (run s us).2
    let idle := sysGetCpuIdle t.start t.numcpu (t.cpuinf .cont).usage now
    let w := (now.toNat - s.2.start.toNat) * s.2.numcpu.toNat
    let usage := (lastUsage (s.2.cpuinf .cont).usage us).toNat
    (idle = (100 * (w - min usage w : Nat) : Rat) / w ∧ 0 ≤ idle ∧ idle ≤ 100) ↔
      usage ≤ w ∨ 2 ^ 62 ∣ usage - w := by
  intro t idle w usage
  have hvalue : idle =
      sysGetCpuIdle s.2.start s.2.numcpu (lastUsage (s.2.cpuinf .cont).usage us) now := by
    simp only [idle, t, run_start, run_numcpu, usage_run]
  rw [hvalue, ← sysGetCpuIdle_eq_iff hlater hcpu hbound rfl, and_iff_left_iff_imp]
  intro h
  rw [h]
  exact idle_mem w usage

/-- A container with one CPU, which was started at 1000. -/
def oneCpu : State :=
  (LoadStatic.zero,
    sysNewContStatus ⟨⟨0, 0⟩, 0, 0, 0, 0, fun _ => ⟨0, 0⟩, fun _ _ => ⟨0, 0⟩⟩ (fun _ => ⟨⟨0, 0⟩, 0, 0⟩)
      1000 1)

/-- An update that reads this `cpu.stat`, and nothing of the memory. -/
def updateWith (cpuStat : List Char) : LiveCalls where
  clock := some ⟨1, 0⟩
  users := some 1
  memFiles _ _ := ⟨none, none, none⟩
  cpuFiles _ := ⟨some cpuStat, none⟩
  now := 1010
  load := ⟨none, none, none⟩
  counters _ _ := none

theorem sysGetCpuIdle_half :
    let t := (run oneCpu [updateWith "usage_usec 5\n".toList]).2
    let idle := sysGetCpuIdle t.start t.numcpu (t.cpuinf .cont).usage 1010
    idle = (100 * (10 - min 5 10 : Nat) : Rat) / (10 : Nat) ∧ 0 ≤ idle ∧ idle ≤ 100 := by
  have husage :
      (lastUsage (oneCpu.2.cpuinf .cont).usage [updateWith "usage_usec 5\n".toList]).toNat = 5 := by
    decide
  have h := @sysGetCpuIdle_iff oneCpu [updateWith "usage_usec 5\n".toList] 1010 (by decide)
    (by decide) (by decide)
  simp only [husage] at h
  exact h.mpr (Or.inl (by decide))

/-- Twenty microseconds of CPU time within ten. -/
theorem sysGetCpuIdle_wraps :
    let t := (run oneCpu [updateWith "usage_usec 20\n".toList]).2
    let idle := sysGetCpuIdle t.start t.numcpu (t.cpuinf .cont).usage 1010
    idle ≠ (100 * (10 - min 20 10 : Nat) : Rat) / (10 : Nat) ∧ ¬ idle ≤ 100 := by
  decide +kernel

/-! ## The memory -/

/-- The update comes to the memory, and the figures of `k` can be read. -/
def LiveCalls.Reads (u : LiveCalls) (k : CpuEnu × MemEnu) : Prop :=
  u.Completes ∧ (readMemory (u.memFiles k.1 k.2) k.2).isSome

/-- One call of `cfg_update_online`: the update, and the keys that the template has. -/
structure Showing where
  calls : LiveCalls
  keys : List TplEnum

/-- What `sys_meminf_printf` divides by in a call. -/
def divisors (s : State) (e : Showing) : List UVlong :=
  let r := sysUpdate s.1 s.2 e.calls
  if r.1 then (e.keys.filterMap memKey).map fun k => (r.2.2.mems k.1 k.2).quotient else []

theorem MemInf.Fits.pos {m : MemInf} (h : m.Fits) : 1 ≤ m.quotient := by
  obtain ⟨k, -, hquotient, -⟩ := h
  rw [BitVec.le_def, hquotient]
  exact Nat.one_le_two_pow.trans (Nat.pow_le_pow_left (by decide) k)

theorem getMemoryInfo_of_isSome {files : MemFiles} {kind : MemEnu}
    (h : (readMemory files kind).isSome) (m : MemInf) : (getMemoryInfo files kind m).Fits := by
  obtain ⟨⟨max, used⟩, hread⟩ := Option.isSome_iff_exists.mp h
  rw [getMemoryInfo, hread]
  exact fits_meminf max used

theorem getMemoryInfo_of_not {files : MemFiles} {kind : MemEnu}
    (h : ¬ (readMemory files kind).isSome) (m : MemInf) : getMemoryInfo files kind m = m := by
  rw [getMemoryInfo, Option.not_isSome_iff_eq_none.mp h]

section Step

variable (s : State) (u : LiveCalls) (k : CpuEnu × MemEnu)

theorem mems_of_reads (h : u.Reads k) : ((sysUpdate s.1 s.2 u).2.2.mems k.1 k.2).Fits := by
  rw [sysUpdate_mems, if_pos h.1]
  exact getMemoryInfo_of_isSome h.2 _

theorem mems_of_not_reads (h : ¬ u.Reads k) :
    (sysUpdate s.1 s.2 u).2.2.mems k.1 k.2 = s.2.mems k.1 k.2 := by
  rw [sysUpdate_mems]
  split
  · rename_i hcompletes
    exact getMemoryInfo_of_not (fun hread => h ⟨hcompletes, hread⟩) _
  · rfl

end Step

/-- Figures that have been read fit, and others are those of the start. -/
theorem mems_run (s : State) (us : List LiveCalls) (k : CpuEnu × MemEnu) :
    ((∃ u ∈ us, u.Reads k) ∧ ((run s us).2.mems k.1 k.2).Fits) ∨
      (¬ (∃ u ∈ us, u.Reads k) ∧ (run s us).2.mems k.1 k.2 = s.2.mems k.1 k.2) := by
  induction us using List.reverseRecOn with
  | nil => exact Or.inr ⟨by simp, rfl⟩
  | append_singleton us u ih =>
      rw [run_concat]
      by_cases hu : u.Reads k
      · exact Or.inl ⟨⟨u, by simp, hu⟩, mems_of_reads _ u k hu⟩
      · have hiff : (∃ v ∈ us ++ [u], v.Reads k) ↔ ∃ v ∈ us, v.Reads k := by
          simp [or_and_right, exists_or, hu]
        rw [mems_of_not_reads _ u k hu, hiff]
        exact ih

theorem quotient_run {s : State} (hs : ∀ c m, s.2.mems c m = MemInf.zero) (us : List LiveCalls)
    (k : CpuEnu × MemEnu) :
    1 ≤ ((run s us).2.mems k.1 k.2).quotient ↔ ∃ u ∈ us, u.Reads k := by
  rcases mems_run s us k with ⟨hread, hfits⟩ | ⟨hnone, hmems⟩
  · exact iff_of_true hfits.pos hread
  · rw [hmems, hs]
    exact iff_of_false (by decide) hnone

/-- The divisors of all calls are at least one exactly when every figure that is shown has
been read before, in a call that came to it. What a reading stores fits in any case. -/
theorem divisors_pos_iff (st : LoadStatic) (sta : StaTyp) (cpu : CpuEnu → CpuCounters)
    (start : UVlong) (numcpu : BitVec 32) (es : List Showing) :
    let s : State := (st, sysNewContStatus sta cpu start numcpu)
    ((∀ pre e post, es = pre ++ e :: post →
        ∀ q ∈ divisors (run s (pre.map Showing.calls)) e, 1 ≤ q) ↔
      ∀ pre e post, es = pre ++ e :: post → e.calls.Completes →
        ∀ k ∈ e.keys.filterMap memKey, ∃ f ∈ pre ++ [e], f.calls.Reads k) ∧
    ∀ pre e post k, es = pre ++ e :: post → e.calls.Reads k →
      ((run s ((pre ++ [e]).map Showing.calls)).2.mems k.1 k.2).Fits := by
  intro s
  have hrun : ∀ pre e, run s ((pre ++ [e]).map Showing.calls) =
      (sysUpdate (run s (pre.map Showing.calls)).1 (run s (pre.map Showing.calls)).2 e.calls).2 := by
    intro pre e
    rw [List.map_append, List.map_singleton, run_concat]
  refine ⟨?_, ?_⟩
  · refine forall_congr' fun pre => forall_congr' fun e => forall_congr' fun post =>
      forall_congr' fun _ => ?_
    rw [divisors]
    simp only [sysUpdate_fst]
    by_cases hcompletes : e.calls.Completes
    · rw [if_pos hcompletes, List.forall_mem_map]
      simp only [hcompletes, true_imp_iff]
      refine forall_congr' fun k => forall_congr' fun _ => ?_
      rw [← hrun, quotient_run (fun _ _ => rfl)]
      simp only [List.mem_map, exists_exists_and_eq_and]
    · rw [if_neg hcompletes]
      exact iff_of_true (List.forall_mem_nil _) fun h => absurd h hcompletes
  · intro pre e post k _ hread
    rw [hrun]
    exact mems_of_reads _ e.calls k hread

/-- The template shows the swap space of a container whose files cannot be opened. -/
theorem divisors_zero :
    divisors oneCpu ⟨updateWith "usage_usec 5\n".toList, [.cswap]⟩ = [0] ∧
      ¬ ∀ q ∈ divisors oneCpu ⟨updateWith "usage_usec 5\n".toList, [.cswap]⟩, 1 ≤ q := by
  have hzero : divisors oneCpu ⟨updateWith "usage_usec 5\n".toList, [.cswap]⟩ = [0] := rfl
  refine ⟨hzero, fun h => ?_⟩
  rw [hzero, List.forall_mem_singleton] at h
  exact absurd h (by decide)

end Vzgot.Online
