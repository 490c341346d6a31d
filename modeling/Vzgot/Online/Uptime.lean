import Vzgot.Library.Scanf
import Vzgot.Online.Resolve

/-!
# Durations of the page

`boot` writes the time into the file `starting` (`sys_set_start`, `lib/utlsys.c`), and every new
status reads it back (`get_start`). The page shows the time since then (`apl_uptime`) and the
CPU time that a container has used or waited for (`apl_chrono_ms`, `lib/utlapl.c`), as days,
hours, minutes and seconds in an array of 40 characters. No duration is too long for the array:
what is shown is read back as the duration that it was (`durations_read_back`).
-/

set_option autoImplicit false

namespace Vzgot.Online

open Vzgot.Stdio Vzgot.Status

/-! ## The time of the start -/

/-- `sys_set_start`: the file, for the seconds and microseconds of `gettimeofday`. -/
def sysSetStart (sec usec : Nat) : List Char :=
  let start : UVlong := BitVec.ofNat 64 (sec * 1000000 + usec)
  printNat false 0 start.toNat ++ ['\n']

/-- `get_start`: zero where nothing is read. -/
def getStart (file : Option (List Char)) : UVlong :=
  (((file.bind (fgets 100)).bind fun line => scanUlong (cstr line)).map Prod.fst).getD 0

/-- `start` of `sys_new_cont_status`, which gives up at a zero. -/
def newStart (file : Option (List Char)) : Option Nat :=
  if getStart file = 0 then none else some (getStart file).toNat

/-! ## Reading a duration -/

/-- A number and what is behind it. -/
def scanDays (s : List Char) : Option (Nat × List Char) :=
  match (skipSpace s).span Char.isDigit with
  | ([], _) => none
  | (ds, rest) => some (Nat.ofDigitChars 10 ds 0, rest)

/-- A number of `prec` digits below a bound. -/
def scanPart (prec bound : Nat) (s : List Char) : Option (Nat × List Char) :=
  let ds := s.take prec
  if ds.length = prec ∧ ds.all Char.isDigit ∧ Nat.ofDigitChars 10 ds 0 < bound then
    some (Nat.ofDigitChars 10 ds 0, s.drop prec)
  else none

/-- Days, hours, minutes and seconds, in seconds. -/
def scanChrono (s : List Char) : Option (Nat × List Char) := do
  let (jours, s) ← scanDays s
  let s ← scanLit " days ".toList s
  let (heures, s) ← scanPart 2 24 s
  let s ← scanLit [':'] s
  let (minutes, s) ← scanPart 2 60 s
  let s ← scanLit [':'] s
  let (secondes, s) ← scanPart 2 60 s
  return (jours * 86400 + heures * 3600 + minutes * 60 + secondes, s)

/-- The same with milliseconds, in milliseconds. -/
def scanChronoMs (s : List Char) : Option (Nat × List Char) := do
  let (sec, s) ← scanChrono s
  let s ← scanLit ['.'] s
  let (ms, s) ← scanPart 3 1000 s
  return (sec * 1000 + ms, s)

/-! ## The parts -/

section Parts

variable {prec bound n : Nat}

theorem scanPart_fraction (hprec : 0 < prec) (hn : n < bound) (hbound : bound ≤ 10 ^ prec)
    (rest : List Char) : scanPart prec bound (fraction prec n ++ rest) = some (n, rest) := by
  have hlength := fraction_length hprec n
  have hvalue := ofDigitChars_fraction prec n
  rw [Nat.mod_eq_of_lt (hn.trans_le hbound)] at hvalue
  have htake : (fraction prec n ++ rest).take prec = fraction prec n := by
    rw [List.take_append_of_le_length hlength.ge, List.take_of_length_le hlength.le]
  have hdrop : (fraction prec n ++ rest).drop prec = rest := by
    rw [List.drop_append_of_le_length hlength.ge, List.drop_of_length_le hlength.le, List.nil_append]
  have hall : (fraction prec n).all Char.isDigit = true := List.all_eq_true.mpr (fraction_digits prec n)
  rw [scanPart, htake, hvalue, hdrop, if_pos ⟨hlength, hall, hn⟩]

theorem scanDays_printNat (space : Bool) (width n : Nat) {c : Char} (hc : c.isDigit = false)
    (rest : List Char) : scanDays (printNat space width n ++ c :: rest) = some (n, c :: rest) := by
  obtain ⟨k, hk⟩ := printNat_eq space width n
  have hdigits : ∀ d ∈ Nat.toDigits 10 n, d.isDigit = true := fun _ => isDigit_of_mem_toDigits
  obtain ⟨hskip, -, -⟩ := skip_digits Nat.toDigits_ne_nil hdigits (c :: rest)
  -- the digits stand behind the blanks of the field
  have hspace : skipSpace (printNat space width n ++ c :: rest) = Nat.toDigits 10 n ++ c :: rest := by
    rw [hk, List.append_assoc, skipSpace, List.dropWhile_append_of_pos (by simp [isSpace])]
    exact hskip
  rw [scanDays, hspace, span_append hdigits (by simp [hc])]
  cases hds : Nat.toDigits 10 n with
  | nil => exact absurd hds Nat.toDigits_ne_nil
  | cons d ds =>
      show some (Nat.ofDigitChars 10 (d :: ds) 0, c :: rest) = _
      rw [← hds, Nat.ofDigitChars_ten_toDigits]

/-- The text of a duration is read back. -/
theorem scanChrono_chrono (sec : Nat) (rest : List Char) :
    scanChrono (chrono sec ++ rest) = some (sec, rest) := by
  have hheures : sec % 86400 / 3600 < 24 := by omega
  have hminutes : sec % 86400 % 3600 / 60 < 60 := by omega
  have hsecondes : sec % 86400 % 3600 % 60 < 60 := by omega
  have htext : chrono sec ++ rest = printNat true 3 (sec / 86400) ++ (" days ".toList ++
      (fraction 2 (sec % 86400 / 3600) ++ ([':'] ++ (fraction 2 (sec % 86400 % 3600 / 60) ++
        ([':'] ++ (fraction 2 (sec % 86400 % 3600 % 60) ++ rest)))))) := by
    simp [chrono]
  have hdays (s : List Char) : scanDays (printNat true 3 (sec / 86400) ++ (" days ".toList ++ s)) =
      some (sec / 86400, " days ".toList ++ s) := scanDays_printNat true 3 _ rfl _
  -- a part below its bound has two digits, and no digit of it is lost
  have hpart {n bound : Nat} (hn : n < bound) (hbound : bound ≤ 10 ^ 2) (s : List Char) :
      scanPart 2 bound (fraction 2 n ++ s) = some (n, s) :=
    scanPart_fraction (by decide) hn hbound s
  have hsum : sec / 86400 * 86400 + sec % 86400 / 3600 * 3600 + sec % 86400 % 3600 / 60 * 60 +
      sec % 86400 % 3600 % 60 = sec := by omega
  rw [htext, scanChrono]
  simp only [Option.bind_eq_bind, hdays, Option.bind_some, scanLit_append, hpart hheures (by decide),
    hpart hminutes (by decide), hpart hsecondes (by decide), hsum]
  rfl

/-- The text of a duration of 64 bits has room in the arrays. -/
theorem chrono_length {sec : Nat} (h : sec < 2 ^ 64) : (chrono sec).length ≤ 35 := by
  -- the days are as wide as they are large, all else is of fixed width
  have hdays : (printNat true 3 (sec / 86400)).length ≤ 16 :=
    (printNat_length_le true 3 (d := 15) (by decide) (by omega)).trans (by decide)
  have htwo (n : Nat) : (fraction 2 n).length = 2 := fraction_length (by decide) n
  simp only [chrono, List.length_append, List.length_cons, htwo]
  have hword : " days ".toList.length = 6 := rfl
  omega

end Parts

/-! ## What the page shows -/

/-- The line of a number of 64 bits is read as that number. -/
theorem getStart_printNat {start : Nat} (h : start < 2 ^ 64) :
    getStart (some (printNat false 0 start ++ ['\n'])) = BitVec.ofNat 64 start := by
  have hdigits : start < 10 ^ 20 := h.trans (by decide)
  -- the line fits the buffer of 100, so it is read to its end
  have hlength : (printNat false 0 start).length ≤ 21 :=
    printNat_length_le false 0 (by decide) hdigits
  obtain ⟨hfgets, -⟩ := @scanInt_fgets_printNat false 0 start 100 (by omega) []
  have hprint : printNat false 0 start = Nat.toDigits 10 start := by simp [printNat]
  have hvalue : Nat.ofDigitChars 10 (Nat.toDigits 10 start) 0 = start := Nat.ofDigitChars_ten_toDigits
  have hscan : scanUlong (printNat false 0 start ++ ['\n']) = some (BitVec.ofNat 64 start, ['\n']) := by
    rw [hprint, scanUlong_append (fun _ => isDigit_of_mem_toDigits) (by simp) Nat.toDigits_ne_nil
      (by rwa [hvalue]), hvalue]
  rw [getStart, Option.bind_some, hfgets, Option.bind_some, cstr_printNat, hscan, Option.map_some,
    Option.getD_some]

/-- The file of the start gives the time that was written. -/
theorem getStart_sysSetStart {sec usec : Nat} (h : sec * 1000000 + usec < 2 ^ 64) :
    (getStart (some (sysSetStart sec usec))).toNat = sec * 1000000 + usec := by
  have hnat : (BitVec.ofNat 64 (sec * 1000000 + usec)).toNat = sec * 1000000 + usec := by
    rw [BitVec.toNat_ofNat, Nat.mod_eq_of_lt h]
  rw [sysSetStart, hnat, getStart_printNat h, hnat]

/-- A status takes the time that was written, unless it is zero. -/
theorem newStart_sysSetStart {sec usec : Nat} (hpos : 0 < sec * 1000000 + usec)
    (hword : sec * 1000000 + usec < 2 ^ 64) :
    newStart (some (sysSetStart sec usec)) = some (sec * 1000000 + usec) := by
  have hread := getStart_sysSetStart hword
  have hne : getStart (some (sysSetStart sec usec)) ≠ 0 := by
    intro hzero
    rw [hzero] at hread
    have hnat : (0 : UVlong).toNat = 0 := rfl
    omega
  rw [newStart, if_neg hne, hread]

/-- The time since the start is read back; before the start there is no text. -/
theorem scanChrono_aplUptime {sec usec now : Nat} (husec : usec < 1000000) (hnow : now < 2 ^ 63) :
    (sec ≤ now → scanChrono (aplUptime 40 (sec * 1000000 + usec) now) = some (now - sec, [])) ∧
      (now < sec → aplUptime 40 (sec * 1000000 + usec) now = []) := by
  have hseconds : (sec * 1000000 + usec) / 1000000 = sec := by omega
  constructor
  · intro hle
    have hword : now - sec < 2 ^ 64 := by omega
    have hlength := chrono_length hword
    have hscan := scanChrono_chrono (now - sec) []
    rw [List.append_nil] at hscan
    simp only [aplUptime, hseconds, if_pos hle]
    rwa [List.take_of_length_le (by omega)]
  · intro hlt
    simp only [aplUptime, hseconds, if_neg (Nat.not_le.mpr hlt)]

/-- Milliseconds are read back. -/
theorem scanChronoMs_aplChronoMs {ms : Nat} (h : ms < 2 ^ 64) :
    scanChronoMs (aplChronoMs 40 ms) = some (ms, []) := by
  have hword : ms / 1000 < 2 ^ 64 := by omega
  have hlength := chrono_length hword
  have hthree : (fraction 3 (ms % 1000)).length = 3 := fraction_length (by decide) _
  have htext : aplChronoMs 40 ms = chrono (ms / 1000) ++ (['.'] ++ (fraction 3 (ms % 1000) ++ [])) := by
    rw [aplChronoMs, List.take_of_length_le]
    · simp
    · simp only [List.length_append, List.length_cons, hthree]
      omega
  have hpart : scanPart 3 1000 (fraction 3 (ms % 1000) ++ []) = some (ms % 1000, []) :=
    scanPart_fraction (by decide) (Nat.mod_lt ms (by decide)) (by decide) []
  have hsum : ms / 1000 * 1000 + ms % 1000 = ms := by omega
  rw [htext, scanChronoMs]
  simp only [Option.bind_eq_bind, scanChrono_chrono, Option.bind_some, scanLit_append, hpart, hsum]
  rfl

/-- The durations of the page are read back as they are: the seconds since the time that the boot
has written, if the clock is not behind it, and the milliseconds of CPU time that were used and
waited for. -/
theorem durations_read_back {sec usec : Nat} (husec : usec < 1000000)
    (hword : sec * 1000000 + usec < 2 ^ 64) {st : Content}
    (hstart : newStart (some (sysSetStart sec usec)) = some st.start) (hnow : st.now < 2 ^ 63)
    (husage : st.usage < 2 ^ 64) (hthrottled : st.throttled < 2 ^ 64) :
    ∃ uptime used wait, argument st .uptime = some (.text (some uptime)) ∧
      argument st .cpuused = some (.text (some used)) ∧
      argument st .cpuwait = some (.text (some wait)) ∧
      (sec ≤ st.now → scanChrono uptime = some (st.now - sec, [])) ∧
      (st.now < sec → uptime = []) ∧
      scanChronoMs used = some (st.usage / 1000, []) ∧
      scanChronoMs wait = some (st.throttled / 1000, []) := by
  -- a status that was given a start has the one that was written
  have hvalue : st.start = sec * 1000000 + usec := by
    rw [newStart] at hstart
    split at hstart
    · cases hstart
    · exact (Option.some.inj hstart).symm.trans (getStart_sysSetStart hword)
  obtain ⟨hafter, hbefore⟩ := @scanChrono_aplUptime sec usec st.now husec hnow
  rw [← hvalue] at hafter hbefore
  exact ⟨_, _, _, rfl, rfl, rfl, hafter, hbefore, scanChronoMs_aplChronoMs (by omega),
    scanChronoMs_aplChronoMs (by omega)⟩

/-- A container that was booted a day, an hour, a minute and a second ago. -/
theorem durations_read_back_day :
    ∃ uptime, argument { Content.zero with start := 1000000005, now := 91061 } .uptime =
        some (.text (some uptime)) ∧ scanChrono uptime = some (90061, []) := by
  have hstart : newStart (some (sysSetStart 1000 5)) = some 1000000005 :=
    newStart_sysSetStart (by decide) (by decide)
  obtain ⟨uptime, -, -, htext, -, -, hafter, -⟩ :=
    @durations_read_back 1000 5 (by decide) (by decide)
      { Content.zero with start := 1000000005, now := 91061 } hstart (by decide) (by decide) (by decide)
  exact ⟨uptime, htext, hafter (by decide)⟩

end Vzgot.Online
