import Mathlib.Algebra.Order.Field.Rat
import Mathlib.Order.Interval.Set.UnorderedInterval
import Vzgot.Library.Fixed
import Vzgot.Library.Scanf
import Vzgot.Status.Update

/-!
# The load average of a container

`sys_cal_loadavg` shows the load of the host times the share of the container in the CPU
load since its last call. Every way out of the procedure stores the loads that it has
read, so the intervals follow each other (`after_lastLoad`), and what a call that returns
true shows is the share of the interval since the call before it
(`sysCalLoadavg_share`).
-/

set_option autoImplicit false

namespace Vzgot.Status

open Vzgot.Stdio

/-- One call: the record it is called with, and the answers of the system. -/
structure LoadCall where
  status : StaTyp
  answers : LoadCalls

/-- The call in a process with these static variables. -/
def LoadCall.result (c : LoadCall) (st : LoadStatic) : Bool × LoadStatic × StaTyp :=
  sysCalLoadavg st c.status c.answers

/-- Static variables behind the calls, newest first. -/
def LoadStatic.after : List LoadCall → LoadStatic
  | [] => .zero
  | c :: earlier => (c.result (LoadStatic.after earlier)).2.1

/-- Increase of usage and pressure between two calls, modulo `2^64`. -/
def LoadCall.increase (prev cur : LoadCall) (c : CpuEnu) : Nat :=
  (cur.status.curLoad c - prev.status.curLoad c).toNat

/-- Share of the container in the increase of the load. -/
def LoadCall.share (prev cur : LoadCall) : Rat :=
  if prev.increase cur .host = 0 then 0
  else min 1 (prev.increase cur .cont / prev.increase cur .host)

/-- A load in hundredths, as the kernel prints it. -/
def printLoad (n : Nat) : List Char := Nat.toDigits 10 (n / 10 ^ 2) ++ '.' :: fraction 2 n

/-- `/proc/loadavg`: three loads in hundredths, and what is behind them. -/
def procLoadavg (avg₁ avg₂ avg₃ : Nat) (behind : List Char) : List Char :=
  printLoad avg₁ ++ ' ' :: (printLoad avg₂ ++ ' ' :: (printLoad avg₃ ++ ' ' :: behind))

/-! ## The loads of the host -/

/-- A printed load is read as the number of hundredths. -/
theorem scanDouble_printLoad (k n : Nat) (rest : List Char) :
    scanDouble (List.replicate k ' ' ++ (printLoad n ++ ' ' :: rest)) =
      some ((n : Rat) / 100, ' ' :: rest) := by
  have hprec : 0 < 2 := by decide
  have hsplit := ofDigitChars_split hprec n
  have hrest : ∀ c ∈ (' ' :: rest).head?, ¬ c.isDigit ∧ c ≠ 'e' ∧ c ≠ 'E' := by
    rintro c ⟨⟩
    decide
  have hread := strtod_append k (@Nat.toDigits_ne_nil (n / 10 ^ 2) 10)
    (fun _ => isDigit_of_mem_toDigits) (fraction_digits 2 n) hrest
  have htext : printLoad n ++ ' ' :: rest =
      Nat.toDigits 10 (n / 10 ^ 2) ++ '.' :: (fraction 2 n ++ ' ' :: rest) := by
    simp [printLoad]
  rw [hsplit, fraction_length hprec] at hread
  have hvalue : (n : Rat) * 10 ^ (-(2 : Nat) : Int) = n / 100 := by
    norm_num [div_eq_mul_inv]
  rw [scanDouble, htext, hread, if_pos ?_, hvalue]
  simp only [List.length_append, List.length_cons]
  omega

theorem newline_not_mem_printLoad (n : Nat) : '\n' ∉ printLoad n := by
  intro h
  rcases List.mem_append.mp h with h | h
  · exact absurd (isDigit_of_mem_toDigits h) (by decide)
  · rcases List.mem_cons.mp h with h | h
    · exact absurd h (by decide)
    · exact absurd (fraction_digits 2 n _ h) (by decide)

theorem printLoad_length_le {n : Nat} (hn : n < 2 ^ 64) : (printLoad n).length ≤ 21 := by
  have hwhole : n / 10 ^ 2 < 10 ^ 18 := by omega
  have hdigits := (Nat.length_toDigits_le_iff (by decide) (by decide)).2 hwhole
  have hfraction : (fraction 2 n).length = 2 := fraction_length (by decide) n
  simp only [printLoad, List.length_append, List.length_cons, hfraction]
  omega

/-- Bytes without a newline are in the buffer of `fgets` when there is room for them. -/
theorem takeLine_append_left {s : List Char} (hs : '\n' ∉ s) {n : Nat} (hn : s.length ≤ n)
    (rest : List Char) : takeLine n (s ++ rest) = s ++ takeLine (n - s.length) rest := by
  induction s generalizing n with
  | nil => rfl
  | cons c cs ih =>
      obtain ⟨m, rfl⟩ : ∃ m, n = m + 1 := ⟨n - 1, by simp at hn; omega⟩
      have hc : c ≠ '\n' := fun h => hs (by simp [h])
      have hcs : '\n' ∉ cs := fun h => hs (List.mem_cons_of_mem c h)
      rw [List.cons_append, takeLine, if_neg hc, ih hcs (by simpa using hn), List.length_cons,
        Nat.add_sub_add_right, List.cons_append]

/-- The loads of the host are those that the kernel has printed. -/
theorem sysGetHostLoadavg_proc {avg₁ avg₂ avg₃ : Nat} (h₁ : avg₁ < 2 ^ 64) (h₂ : avg₂ < 2 ^ 64)
    (h₃ : avg₃ < 2 ^ 64) (behind : List Char) :
    sysGetHostLoadavg (some (procLoadavg avg₁ avg₂ avg₃ behind)) =
      some ![(avg₁ : Rat) / 100, (avg₂ : Rat) / 100, (avg₃ : Rat) / 100] := by
  -- the buffer holds the three numbers, whatever is behind them
  obtain ⟨tail, hline⟩ : ∃ tail, fgets 200 (procLoadavg avg₁ avg₂ avg₃ behind) =
      some (procLoadavg avg₁ avg₂ avg₃ tail) := by
    let front := printLoad avg₁ ++ ' ' :: (printLoad avg₂ ++ ' ' :: (printLoad avg₃ ++ [' ']))
    have hfront : ∀ behind, procLoadavg avg₁ avg₂ avg₃ behind = front ++ behind := by
      simp [procLoadavg, front]
    have hroom : front.length ≤ 199 := by
      have hlength₁ := printLoad_length_le h₁
      have hlength₂ := printLoad_length_le h₂
      have hlength₃ := printLoad_length_le h₃
      simp only [front, List.length_append, List.length_cons, List.length_nil]
      omega
    have hnewline : '\n' ∉ front := by
      simp [front, newline_not_mem_printLoad]
    have hne : front ++ behind ≠ [] := by simp [front]
    refine ⟨takeLine (199 - front.length) behind, ?_⟩
    rw [hfront, hfront, fgets, if_neg hne, takeLine_append_left hnewline hroom]
  have hfirst := scanDouble_printLoad 0 avg₁
    (printLoad avg₂ ++ ' ' :: (printLoad avg₃ ++ ' ' :: tail))
  have hsecond := scanDouble_printLoad 1 avg₂ (printLoad avg₃ ++ ' ' :: tail)
  have hthird := scanDouble_printLoad 1 avg₃ tail
  simp only [List.replicate_zero, List.nil_append, List.replicate_one, List.singleton_append]
    at hfirst hsecond hthird
  rw [sysGetHostLoadavg, Option.bind_some, hline, Option.bind_some, procLoadavg, hfirst,
    Option.bind_some, hsecond, Option.bind_some, hthird, Option.map_some]

/-! ## The calls -/

/-- Every way out stores the loads. -/
theorem sysCalLoadavg_lastLoad (st : LoadStatic) (s : StaTyp) (r : LoadCalls) :
    (sysCalLoadavg st s r).2.1.lastLoad = s.curLoad := by
  unfold sysCalLoadavg
  split
  · rfl
  · split
    · rfl
    · split
      · rfl
      · cases r.pidsCurrent <;> rfl

/-- The reference loads are those of the last call, whatever its outcome. -/
theorem after_lastLoad (c : LoadCall) (earlier : List LoadCall) :
    (LoadStatic.after (c :: earlier)).lastLoad = c.status.curLoad :=
  sysCalLoadavg_lastLoad ..

/-- A call that returns true shows the load of the host, times the ratio, and the numbers it was
given. -/
theorem sysCalLoadavg_eq_true {st : LoadStatic} {s : StaTyp} {r : LoadCalls}
    (h : (sysCalLoadavg st s r).1 = true) :
    st.lastLoad .host ≠ 0 ∧ ∃ hostAvg pids, sysGetHostLoadavg r.hostLoadavg = some hostAvg ∧
      r.pidsCurrent = some pids ∧
      (sysCalLoadavg st s r).2.1.loadavg =
        .load (fun i => hostAvg i * loadRatio st.lastLoad s.curLoad) pids
          (r.lastPid.getD s.lastPid) := by
  revert h
  unfold sysCalLoadavg
  split
  · exact fun h => nomatch h
  · rename_i hlast
    split
    · exact fun h => nomatch h
    · split
      · exact fun h => nomatch h
      · rename_i hostAvg hhost
        cases r.pidsCurrent with
        | none => exact fun h => nomatch h
        | some pids => exact fun _ => ⟨hlast, hostAvg, pids, hhost, rfl, rfl⟩

/-- The ratio of the code is the share of the interval. -/
theorem loadRatio_eq_share (prev cur : LoadCall) :
    loadRatio prev.status.curLoad cur.status.curLoad = prev.share cur := by
  have hdelta : ∀ c, deltaCpu prev.status.curLoad cur.status.curLoad c = prev.increase cur c :=
    fun _ => rfl
  by_cases hzero : prev.increase cur .host = 0
  · have hnone : ¬ 0 < deltaCpu prev.status.curLoad cur.status.curLoad .host := by
      rw [hdelta, hzero, Nat.cast_zero]
      exact lt_irrefl 0
    rw [loadRatio, if_neg hnone, LoadCall.share, if_pos hzero]
  · have hpos : 0 < deltaCpu prev.status.curLoad cur.status.curLoad .host := by
      rw [hdelta]
      exact Nat.cast_pos.mpr (Nat.pos_of_ne_zero hzero)
    rw [loadRatio, if_pos hpos, LoadCall.share, if_neg hzero, ← hdelta, ← hdelta]
    dsimp only
    split
    · rename_i hlarge
      exact (min_eq_left hlarge.le).symm
    · rename_i hsmall
      exact (min_eq_right (not_lt.mp hsmall)).symm

theorem LoadCall.share_nonneg (prev cur : LoadCall) : 0 ≤ prev.share cur := by
  unfold LoadCall.share
  split
  · exact le_refl 0
  · exact le_min zero_le_one (div_nonneg (Nat.cast_nonneg _) (Nat.cast_nonneg _))

theorem LoadCall.share_le_one (prev cur : LoadCall) : prev.share cur ≤ 1 := by
  unfold LoadCall.share
  split
  · exact zero_le_one
  · exact min_le_left _ _

/-- A share of a number lies between zero and the number. -/
theorem mul_mem_uIcc {x r : Rat} (hnonneg : 0 ≤ r) (hone : r ≤ 1) : x * r ∈ Set.uIcc 0 x := by
  rw [Set.mem_uIcc]
  rcases le_total 0 x with hx | hx
  · exact .inl ⟨mul_nonneg hx hnonneg, mul_le_of_le_one_right hx hone⟩
  · exact .inr ⟨le_mul_of_le_one_right hx hone, mul_nonpos_of_nonpos_of_nonneg hx hnonneg⟩

/-- A call that returns true has a call before it, and has read `/proc/loadavg` and the number of
processes. It shows the loads of the host, as the kernel has printed them, times the share of
the container in the interval since that call, each between zero and the load of the host. -/
theorem sysCalLoadavg_share (cur : LoadCall) (earlier : List LoadCall)
    (h : (cur.result (LoadStatic.after earlier)).1 = true) :
    ∃ prev rest text hostAvg pids, earlier = prev :: rest ∧
      cur.answers.hostLoadavg = some text ∧ cur.answers.pidsCurrent = some pids ∧
      sysGetHostLoadavg (some text) = some hostAvg ∧
      (∀ avg₁ avg₂ avg₃ behind, avg₁ < 2 ^ 64 → avg₂ < 2 ^ 64 → avg₃ < 2 ^ 64 →
        text = procLoadavg avg₁ avg₂ avg₃ behind →
        hostAvg = ![(avg₁ : Rat) / 100, (avg₂ : Rat) / 100, (avg₃ : Rat) / 100]) ∧
      (LoadStatic.after (cur :: earlier)).loadavg =
        .load (fun i => hostAvg i * prev.share cur) pids
          (cur.answers.lastPid.getD cur.status.lastPid) ∧
      ∀ i, hostAvg i * prev.share cur ∈ Set.uIcc 0 (hostAvg i) := by
  obtain ⟨hlast, hostAvg, pids, hhost, hpids, hshown⟩ := sysCalLoadavg_eq_true h
  cases earlier with
  | nil => exact absurd rfl hlast
  | cons prev rest =>
      obtain ⟨text, htext⟩ : ∃ text, cur.answers.hostLoadavg = some text := by
        cases htext : cur.answers.hostLoadavg with
        | none =>
            rw [htext] at hhost
            cases hhost
        | some text => exact ⟨text, rfl⟩
      rw [htext] at hhost
      refine ⟨prev, rest, text, hostAvg, pids, rfl, htext, hpids, hhost, ?_, ?_, fun i => ?_⟩
      · rintro avg₁ avg₂ avg₃ behind h₁ h₂ h₃ rfl
        exact Option.some.inj (hhost.symm.trans (sysGetHostLoadavg_proc h₁ h₂ h₃ behind))
      · rw [after_lastLoad, loadRatio_eq_share] at hshown
        exact hshown
      · exact mul_mem_uIcc (prev.share_nonneg cur) (prev.share_le_one cur)

/-- A call with these loads, in a process where everything can be read. -/
def sampleCall (host cont : UVlong) : LoadCall where
  status :=
    { lastTime := ⟨0, 0⟩
      deltaT := 1
      nbruser := 0
      lastPid := 0
      pidsCurrent := 0
      cpuinf := fun c => ⟨if c = .host then host else cont, 0⟩
      traffic := fun _ _ => ⟨0, 0⟩ }
  answers := ⟨some "2.00 1.00 0.50 1/9 7".toList, some 7, some 3⟩

/-- Half of the load of the host in the interval. -/
theorem sysCalLoadavg_share_half :
    ∃ avg, (LoadStatic.after [sampleCall 30 14, sampleCall 10 4]).loadavg = .load avg 3 7 ∧
      avg 0 = 1 ∧ avg 1 = 1 / 2 ∧ avg 2 = 1 / 4 := by
  obtain ⟨prev, rest, text, hostAvg, pids, hearlier, htext, hpids, -, hvalue, hshown, -⟩ :=
    sysCalLoadavg_share (sampleCall 30 14) [sampleCall 10 4] (by decide +kernel)
  obtain ⟨rfl, -⟩ := List.cons.inj hearlier
  obtain rfl := Option.some.inj hpids
  have hproc : text = procLoadavg 200 100 50 "1/9 7".toList :=
    (Option.some.inj htext).symm.trans (by decide)
  have hhost := hvalue _ _ _ _ (by decide) (by decide) (by decide) hproc
  have hhalf : (sampleCall 10 4).share (sampleCall 30 14) = 1 / 2 := by decide +kernel
  rw [hhost, hhalf] at hshown
  refine ⟨_, hshown, ?_, ?_, ?_⟩
  · change (200 : Rat) / 100 * (1 / 2) = 1
    norm_num
  · change (100 : Rat) / 100 * (1 / 2) = 1 / 2
    norm_num
  · change (50 : Rat) / 100 * (1 / 2) = 1 / 4
    norm_num

end Vzgot.Status
