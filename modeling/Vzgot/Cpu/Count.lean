import Mathlib.Data.Finset.Sort
import Vzgot.Cpu.Info
import Vzgot.Library.Runs

/-!
# The number of CPUs of a container

`sys_get_numcpu` (`lib/utlsys.c`) and `prc_getnbrcpu` (`lib/subprc.c`) count the CPUs that
`cpuset.cpus.effective` lists; the quota in `cpu.max` is worked out from the count. Both
read one line into `data[200]`, the second one a byte less of it and without the newline,
and then cut the line at its commas. The kernel writes the list as the maximal ranges of
the set (`kernelList`, `rangesOf_maximal`).

A list that is longer than the buffer is counted as far as it was read. `lost` is the
number of members that this leaves out, element by element: an element whose digits are
cut still counts as a CPU, and the end of a range may be read as a smaller number. Nothing
is lost just where the list fits (`lost_eq_zero_iff`). The count is right where nothing is
lost, or where 16 bits hide what is (`sysGetNumcpu_counts_iff`). The even numbers below 140
have too long a list.
-/

set_option autoImplicit false

namespace Vzgot.Cpu

open Vzgot.Cgroup Vzgot.Pieces Vzgot.Runs Vzgot.Stdio

/-! ## The two functions -/

/-- What `%d` leaves of the string behind the number. -/
def behindInt (s : List Char) : List Char :=
  let t := s.dropWhile isSpace
  let t := if t.head? = some '-' ∨ t.head? = some '+' then t.tail else t
  t.dropWhile Char.isDigit

/-- `sscanf(check,"%d-%d",&start,&end)`, if it returns 2. -/
def scanRange (check : List Char) : Option (Int × Int) :=
  match scanInt check, behindInt check with
  | some start, '-' :: r => (scanInt r).map fun stop => (start, stop)
  | _, _ => none

/-- What one piece between the commas adds to `nbr`, which is a `uint16_t`. -/
def countPiece (nbr : BitVec 16) (check : List Char) : BitVec 16 :=
  if check.takeWhile (fun c => c.isDigit || c = '-') = [] then nbr
  else if '-' ∈ check then
    match scanRange check with
    | some (start, stop) => nbr + BitVec.ofInt 16 (stop - start) + 1
    | none => nbr + 1
  else nbr + 1

/-- Phase 2: the pieces from left to right. An empty one adds nothing. -/
def countLine (data : List Char) : BitVec 16 := (data.splitOn ',').foldl countPiece 0

/-- Common text of the two functions: the size given to `fgets`, whether the line is
cleaned, the number of CPUs of the host, and the file if it could be opened. -/
def getNumcpu (size : Nat) (clean : Bool) (conf : BitVec 16) (file : Option (List Char)) :
    BitVec 16 :=
  match file.bind (fgets size) with
  | none => conf
  | some line =>
      let data := if clean then aplCleanstring (cstr line) else cstr line
      let nbr := if data = [] then conf else countLine data
      if nbr = 0 then conf else nbr

/-- `sys_get_numcpu` -/
def sysGetNumcpu : BitVec 16 → Option (List Char) → BitVec 16 := getNumcpu 200 false

/-- `prc_getnbrcpu` -/
def prcGetnbrcpu : BitVec 16 → Option (List Char) → BitVec 16 := getNumcpu 199 true

/-! ## The list of the kernel -/

/-- A range as the kernel writes it. -/
def runText (r : Run) : List Char :=
  if r.first = r.last then decimal r.first else decimal r.first ++ '-' :: decimal r.last

/-- The ranges with commas between them. -/
def listText (rs : List Run) : List Char := [','].intercalate (rs.map runText)

/-- The maximal ranges of a set. -/
def rangesOf (S : Finset Nat) : List Run := runs S.sort

/-- They have the members of the set, with a number missing between one and the next. -/
theorem rangesOf_maximal (S : Finset Nat) :
    (∀ i, (∃ r ∈ rangesOf S, i ∈ r.members) ↔ i ∈ S) ∧ Apart (rangesOf S) :=
  ⟨fun _ => mem_runs.trans (Finset.mem_sort _), runs_apart S.sortedLT_sort.pairwise⟩

/-- Content of `cpuset.cpus.effective` for the set. -/
def kernelList (S : Finset Nat) : List Char := listText (rangesOf S) ++ ['\n']

/-- Members that are counted for a range of which `k` characters were read. -/
def keptCount (r : Run) (k : Nat) : Int :=
  if k = 0 then 0
  else if r.first = r.last ∨ k ≤ (decimal r.first).length + 1 then 1
  else
    (Nat.ofDigitChars 10 ((decimal r.last).take (k - ((decimal r.first).length + 1))) 0 : Int) -
      r.first + 1

/-- Members that the first `n` characters of the list do not account for. -/
def lost : Nat → List Run → Int
  | _, [] => 0
  | n, r :: rs => (r.count - keptCount r n) + lost (n - ((runText r).length + 1)) rs

/-- Reading `n` characters of the list does not change the count: nothing is lost, or so
many members that 16 bits do not show it; or the count falls to zero and the number of
CPUs of the host, taken instead, is right. -/
def Spared (conf : BitVec 16) (n : Nat) (S : Finset Nat) : Prop :=
  let l := lost n (rangesOf S)
  (65536 : Int) ∣ l ∨ ((65536 : Int) ∣ S.card - l ∧ conf.toNat = S.card)

instance (conf : BitVec 16) (n : Nat) (S : Finset Nat) : Decidable (Spared conf n S) :=
  inferInstanceAs (Decidable ((65536 : Int) ∣ lost n (rangesOf S) ∨
    ((65536 : Int) ∣ S.card - lost n (rangesOf S) ∧ conf.toNat = S.card)))

/-! ## One piece -/

/-- What one piece adds, as an integer. -/
def pieceCount (check : List Char) : Int :=
  if check.takeWhile (fun c => c.isDigit || c = '-') = [] then 0
  else if '-' ∈ check then
    match scanRange check with
    | some (start, stop) => stop - start + 1
    | none => 1
  else 1

theorem countPiece_eq (nbr : BitVec 16) (check : List Char) :
    countPiece nbr check = nbr + BitVec.ofInt 16 (pieceCount check) := by
  have hone : (1 : BitVec 16) = BitVec.ofInt 16 1 := rfl
  unfold countPiece pieceCount
  split
  · simp
  · split
    · split
      · rw [BitVec.ofInt_add, BitVec.add_assoc, hone]
      · rfl
    · rfl

theorem foldl_countPiece (pieces : List (List Char)) (nbr : BitVec 16) :
    pieces.foldl countPiece nbr = nbr + BitVec.ofInt 16 (pieces.map pieceCount).sum := by
  induction pieces generalizing nbr with
  | nil => simp
  | cons p ps ih =>
      rw [List.foldl_cons, ih, countPiece_eq, List.map_cons, List.sum_cons, BitVec.ofInt_add,
        BitVec.add_assoc]

/-- The count of a line, modulo 65536. -/
theorem countLine_eq (data : List Char) :
    countLine data = BitVec.ofInt 16 ((data.splitOn ',').map pieceCount).sum := by
  rw [countLine, foldl_countPiece]
  exact BitVec.zero_add _

theorem behindInt_digits {ds : List Char} (hne : ds ≠ []) (hds : ∀ c ∈ ds, c.isDigit = true)
    {rest : List Char} (hrest : ∀ c ∈ rest.head?, c.isDigit = false) :
    behindInt (ds ++ rest) = rest := by
  have hstop : rest.dropWhile Char.isDigit = rest := by
    cases rest with
    | nil => rfl
    | cons c cs => exact List.dropWhile_cons_of_neg (by simp [hrest c rfl])
  obtain ⟨d, ds', rfl⟩ := List.exists_cons_of_ne_nil hne
  have hdigit : d.isDigit = true := hds d List.mem_cons_self
  have hblank : (d :: ds' ++ rest).dropWhile isSpace = d :: ds' ++ rest := by
    rw [List.cons_append, List.dropWhile_cons_of_neg (by simp [isSpace_of_isDigit hdigit])]
  have hminus : d ≠ '-' := by rintro rfl; simp at hdigit
  have hplus : d ≠ '+' := by rintro rfl; simp at hdigit
  have hsign : ¬((d :: ds' ++ rest).head? = some '-' ∨ (d :: ds' ++ rest).head? = some '+') := by
    simp [hminus, hplus]
  simp only [behindInt, hblank, if_neg hsign, List.dropWhile_append_of_pos hds, hstop]

/-- The end of the buffer: nothing, or the newline of the line. -/
def LineEnd (tail : List Char) : Prop := tail = [] ∨ tail = ['\n']

section Piece

variable {tail ds : List Char} (ht : LineEnd tail)
include ht

theorem LineEnd.not_digit : ∀ c ∈ tail.head?, c.isDigit = false := by
  rcases ht with rfl | rfl
  · simp
  · intro c hc
    obtain rfl : '\n' = c := Option.some.inj hc
    rfl

theorem LineEnd.not_mem {c : Char} (hc : c ≠ '\n') : c ∉ tail := by
  rcases ht with rfl | rfl
  · simp
  · simpa using hc

theorem pieceCount_end : pieceCount tail = 0 := by
  rcases ht with rfl | rfl <;> rfl

theorem pieceCount_digits (hne : ds ≠ []) (hds : ∀ c ∈ ds, c.isDigit = true) :
    pieceCount (ds ++ tail) = 1 := by
  have hminus : '-' ∉ ds ++ tail := by
    rw [List.mem_append]
    rintro (h | h)
    · exact absurd (hds _ h) (by decide)
    · exact ht.not_mem (by decide) h
  rw [pieceCount, if_neg hminus]
  obtain ⟨d, ds, rfl⟩ := List.exists_cons_of_ne_nil hne
  simp [hds d List.mem_cons_self]

/-- A range of which the hyphen was read, and perhaps digits behind it. -/
theorem pieceCount_range {stop : List Char} (hne : ds ≠ []) (hds : ∀ c ∈ ds, c.isDigit = true)
    (hstop : ∀ c ∈ stop, c.isDigit = true) :
    pieceCount (ds ++ '-' :: (stop ++ tail)) =
      if stop = [] then 1
      else (Nat.ofDigitChars 10 stop 0 : Int) - Nat.ofDigitChars 10 ds 0 + 1 := by
  have hhyphen : ∀ c ∈ ('-' :: (stop ++ tail)).head?, c.isDigit = false := by simp
  have hstart := scanInt_digits 0 hne hds hhyphen
  have hbehind := behindInt_digits hne hds hhyphen
  have hscan : scanRange (ds ++ '-' :: (stop ++ tail)) =
      (scanInt (stop ++ tail)).map fun b => ((Nat.ofDigitChars 10 ds 0 : Int), b) := by
    simp only [scanRange, hbehind]
    rw [List.replicate_zero, List.nil_append] at hstart
    rw [hstart]
    rfl
  have hcounted : (ds ++ '-' :: (stop ++ tail)).takeWhile
      (fun c => c.isDigit || c = '-') ≠ [] := by
    obtain ⟨d, ds, rfl⟩ := List.exists_cons_of_ne_nil hne
    simp [hds d List.mem_cons_self]
  rw [pieceCount, if_neg hcounted, if_pos (by simp), hscan]
  split_ifs with hnil
  · -- the second conversion of `sscanf` fails: the piece counts as one number
    subst hnil
    have hnone : scanInt ([] ++ tail) = none := by
      rcases ht with rfl | rfl <;> rfl
    rw [hnone]
    rfl
  · have hsome := scanInt_digits 0 hnil hstop ht.not_digit
    rw [List.replicate_zero, List.nil_append] at hsome
    rw [hsome]
    rfl

end Piece

/-! ## The list -/

theorem decimal_digit {i : Nat} : ∀ c ∈ decimal i, c.isDigit = true :=
  fun _ => isDigit_of_mem_toDigits

theorem decimal_ne_nil (i : Nat) : decimal i ≠ [] := Nat.toDigits_ne_nil

theorem ofDigitChars_decimal (i : Nat) : Nat.ofDigitChars 10 (decimal i) 0 = i :=
  Nat.ofDigitChars_ten_toDigits

/-- Characters of a range. -/
theorem runText_chars (r : Run) : ∀ c ∈ runText r, c.isDigit = true ∨ c = '-' := by
  intro c hc
  rw [runText] at hc
  split at hc
  · exact Or.inl (decimal_digit c hc)
  · rcases List.mem_append.mp hc with h | h
    · exact Or.inl (decimal_digit c h)
    · rcases List.mem_cons.mp h with rfl | h
      · exact Or.inr rfl
      · exact Or.inl (decimal_digit c h)

theorem comma_not_mem_runText (r : Run) : ',' ∉ runText r := by
  intro h
  rcases runText_chars r _ h with h | h
  · exact absurd h (by decide)
  · exact absurd h (by decide)

theorem listText_cons_cons (r s : Run) (rs : List Run) :
    listText (r :: s :: rs) = runText r ++ ',' :: listText (s :: rs) := by
  simp [listText, List.intercalate_cons_cons]

/-- Characters of the list. -/
theorem listText_chars : ∀ rs : List Run, ∀ c ∈ listText rs, c.isDigit = true ∨ c = '-' ∨ c = ','
  | [], c, hc => by simp [listText] at hc
  | [r], c, hc => by
      have hc : c ∈ runText r := by simpa [listText] using hc
      exact (runText_chars r c hc).imp_right Or.inl
  | r :: s :: rs, c, hc => by
      rw [listText_cons_cons] at hc
      rcases List.mem_append.mp hc with h | h
      · exact (runText_chars r c h).imp_right Or.inl
      · rcases List.mem_cons.mp h with rfl | h
        · exact Or.inr (Or.inr rfl)
        · exact listText_chars (s :: rs) c h

/-- Members counted in the first `n` characters of the list. -/
def kept : Nat → List Run → Int
  | _, [] => 0
  | n, r :: rs => keptCount r n + kept (n - ((runText r).length + 1)) rs

theorem kept_zero (rs : List Run) : kept 0 rs = 0 := by
  induction rs with
  | nil => rfl
  | cons r rs ih => rw [kept, Nat.zero_sub, ih, keptCount, if_pos rfl, Int.add_zero]

theorem lost_eq (n : Nat) (rs : List Run) : lost n rs = total rs - kept n rs := by
  induction rs generalizing n with
  | nil => rfl
  | cons r rs ih =>
      rw [lost, kept, ih]
      simp only [total, Nat.cast_add]
      ring

/-- The first `n` characters hold the list, but for digits at the end of a last single
number: an element that is cut elsewhere leaves members out. -/
def Fits : Nat → List Run → Prop
  | _, [] => True
  | n, r :: rs =>
      ((runText r).length ≤ n ∨ (r.first = r.last ∧ 0 < n)) ∧
        Fits (n - ((runText r).length + 1)) rs

/-- Reading less of a range counts fewer members of it. -/
theorem keptCount_le (r : Run) (k : Nat) :
    keptCount r k ≤ r.count ∧
      (keptCount r k = r.count ↔ (runText r).length ≤ k ∨ (r.first = r.last ∧ 0 < k)) := by
  have hle := r.le
  have hstart := List.length_pos_iff.mpr (decimal_ne_nil r.first)
  have hcount : r.count = r.last - r.first + 1 := rfl
  by_cases hone : r.first = r.last
  · have htext : (runText r).length = (decimal r.first).length := by rw [runText, if_pos hone]
    rw [keptCount, htext]
    split_ifs <;> omega
  have htext : (runText r).length = (decimal r.first).length + 1 + (decimal r.last).length := by
    rw [runText, if_neg hone, List.length_append, List.length_cons]
    omega
  have hstop := List.length_pos_iff.mpr (decimal_ne_nil r.last)
  rw [keptCount, htext]
  split_ifs with hk hcut
  · omega
  · omega
  obtain ⟨j, rfl⟩ : ∃ j, k = (decimal r.first).length + 1 + j :=
    ⟨k - ((decimal r.first).length + 1), by omega⟩
  rw [Nat.add_sub_cancel_left]
  by_cases hj : j < (decimal r.last).length
  · have hlt : Nat.ofDigitChars 10 ((decimal r.last).take j) 0 < r.last :=
      ofDigitChars_take_lt (by omega) hj
    omega
  · rw [List.take_of_length_le (by omega), ofDigitChars_decimal]
    omega

/-- Nothing is lost just where the list fits. -/
theorem lost_eq_zero_iff (n : Nat) (rs : List Run) :
    0 ≤ lost n rs ∧ (lost n rs = 0 ↔ Fits n rs) := by
  induction rs generalizing n with
  | nil => simp [lost, Fits]
  | cons r rs ih =>
      obtain ⟨hle, hiff⟩ := keptCount_le r n
      obtain ⟨hnonneg, hzero⟩ := ih (n - ((runText r).length + 1))
      rw [lost, Fits, ← hiff, ← hzero]
      omega

/-- A piece that is cut behind `k` characters adds what is kept of it. -/
theorem pieceCount_take {tail : List Char} (ht : LineEnd tail) (r : Run) (k : Nat) :
    pieceCount ((runText r).take k ++ tail) = keptCount r k := by
  by_cases hk : k = 0
  · subst hk
    rw [keptCount, if_pos rfl, List.take_zero, List.nil_append, pieceCount_end ht]
  have hstart : (decimal r.first).take k ≠ [] := by
    rw [Ne, List.take_eq_nil_iff]
    rintro (h | h)
    · exact hk h
    · exact decimal_ne_nil _ h
  have hdigits : ∀ c ∈ (decimal r.first).take k, c.isDigit = true :=
    fun c hc => decimal_digit c (List.mem_of_mem_take hc)
  rw [keptCount, if_neg hk, runText]
  by_cases hone : r.first = r.last
  · rw [if_pos hone, if_pos (Or.inl hone), pieceCount_digits ht hstart hdigits]
  rw [if_neg hone]
  by_cases hhyphen : k ≤ (decimal r.first).length
  · rw [if_pos (Or.inr (by omega)), List.take_append_of_le_length hhyphen,
      pieceCount_digits ht hstart hdigits]
  -- the hyphen is there
  obtain ⟨j, rfl⟩ : ∃ j, k = (decimal r.first).length + 1 + j :=
    ⟨k - ((decimal r.first).length + 1), by omega⟩
  have htake : (decimal r.first ++ '-' :: decimal r.last).take ((decimal r.first).length + 1 + j) =
      decimal r.first ++ '-' :: (decimal r.last).take j := by
    rw [List.take_append, List.take_of_length_le (by omega)]
    have hrest : (decimal r.first).length + 1 + j - (decimal r.first).length = j + 1 := by omega
    rw [hrest, List.take_succ_cons]
  have hstop : ∀ c ∈ (decimal r.last).take j, c.isDigit = true :=
    fun c hc => decimal_digit c (List.mem_of_mem_take hc)
  rw [htake, List.append_assoc, List.cons_append,
    pieceCount_range ht (decimal_ne_nil _) decimal_digit hstop, ofDigitChars_decimal,
    Nat.add_sub_cancel_left]
  have hnil : (decimal r.last).take j = [] ↔ j = 0 := by
    rw [List.take_eq_nil_iff]
    exact or_iff_left (decimal_ne_nil _)
  by_cases hj : j = 0
  · rw [if_pos (hnil.mpr hj), if_pos (Or.inr (by omega))]
  · rw [if_neg (fun h => hj (hnil.mp h)), if_neg]
    rintro (h | h)
    · exact hone h
    · omega

theorem keptCount_full (r : Run) {k : Nat} (hk : (runText r).length ≤ k) :
    keptCount r k = keptCount r (runText r).length := by
  rw [← pieceCount_take (Or.inl rfl), ← pieceCount_take (Or.inl rfl), List.take_of_length_le hk,
    List.take_length]

/-- The pieces of the list cut behind `n` characters. -/
theorem sum_pieceCount {tail : List Char} (ht : LineEnd tail) (n : Nat) (rs : List Run) :
    ((((listText rs).take n ++ tail).splitOn ',').map pieceCount).sum = kept n rs := by
  have hwhole (r : Run) (k : Nat) :
      ((((runText r).take k ++ tail).splitOn ',').map pieceCount).sum = keptCount r k := by
    have hcomma : ',' ∉ (runText r).take k ++ tail := by
      rw [List.mem_append]
      rintro (h | h)
      · exact comma_not_mem_runText r (List.mem_of_mem_take h)
      · exact ht.not_mem (by decide) h
    rw [List.splitOn_eq_singleton hcomma, List.map_singleton, List.sum_singleton,
      pieceCount_take ht]
  induction rs generalizing n with
  | nil =>
      have hcomma : ',' ∉ tail := ht.not_mem (by decide)
      simp [listText, kept, List.splitOn_eq_singleton hcomma, pieceCount_end ht]
  | cons r rs ih =>
      cases rs with
      | nil =>
          have hone : listText [r] = runText r := by simp [listText]
          rw [hone, hwhole, kept, kept, Int.add_zero]
      | cons s rs =>
          rw [listText_cons_cons, kept]
          -- the cut is in the first run, or behind its comma
          by_cases hn : n ≤ (runText r).length
          · rw [List.take_append_of_le_length hn, hwhole, Nat.sub_eq_zero_of_le (by omega),
              kept_zero, Int.add_zero]
          · obtain ⟨m, rfl⟩ : ∃ m, n = (runText r).length + 1 + m :=
              ⟨n - ((runText r).length + 1), by omega⟩
            have htake : (runText r ++ ',' :: listText (s :: rs)).take
                ((runText r).length + 1 + m) = runText r ++ ',' :: (listText (s :: rs)).take m := by
              rw [List.take_append, List.take_of_length_le (by omega)]
              have hrest : (runText r).length + 1 + m - (runText r).length = m + 1 := by omega
              rw [hrest, List.take_succ_cons]
            have hfirst := pieceCount_take (Or.inl rfl) r (runText r).length
            rw [List.take_length, List.append_nil] at hfirst
            rw [htake, List.append_assoc, List.cons_append,
              List.splitOn_append_cons_self_of_not_mem (comma_not_mem_runText r), List.map_cons,
              List.sum_cons, ih, hfirst, Nat.add_sub_cancel_left,
              keptCount_full r (k := (runText r).length + 1 + m) (by omega)]

/-! ## What is read of the file -/

/-- A line without blanks and NULs, up to the end of the buffer. -/
theorem fgets_kernelList (size : Nat) (S : Finset Nat) :
    ∃ tail, LineEnd tail ∧
      fgets size (kernelList S) = some ((listText (rangesOf S)).take (size - 1) ++ tail) := by
  have hnewline : '\n' ∉ listText (rangesOf S) := by
    intro h
    rcases listText_chars _ _ h with h | h | h <;> exact absurd h (by decide)
  refine ⟨['\n'].take (size - 1 - (listText (rangesOf S)).length), ?_, ?_⟩
  · cases size - 1 - (listText (rangesOf S)).length with
    | zero => exact Or.inl rfl
    | succ k => exact Or.inr (by simp)
  · rw [fgets, kernelList, if_neg (by simp), takeLine_line hnewline, List.take_append]

theorem cstr_line {n : Nat} {rs : List Run} {tail : List Char} (ht : LineEnd tail) :
    cstr ((listText rs).take n ++ tail) = (listText rs).take n ++ tail := by
  apply cstr_of_not_mem
  intro hc
  rcases List.mem_append.mp hc with h | h
  · rcases listText_chars rs _ (List.mem_of_mem_take h) with h | h | h <;>
      exact absurd h (by decide)
  · exact ht.not_mem (by decide) h

/-- Cleaning takes the newline away and nothing else. -/
theorem aplCleanstring_line {n : Nat} {rs : List Run} {tail : List Char} (ht : LineEnd tail) :
    aplCleanstring ((listText rs).take n ++ tail) = (listText rs).take n := by
  have hplain : ∀ c ∈ (listText rs).take n,
      ¬(c = '\n' ∨ c = '\r' ∨ c = ' ') ∧ ¬(c = ' ' ∨ c = '\t') := by
    intro c hc
    rcases listText_chars rs c (List.mem_of_mem_take hc) with h | rfl | rfl
    · constructor
      · rintro (rfl | rfl | rfl) <;> exact absurd h (by decide)
      · rintro (rfl | rfl) <;> exact absurd h (by decide)
    · decide
    · decide
  -- a list begins and ends with a character that stays
  have hback : ((listText rs).take n).rdropWhile (fun c => c = '\n' || c = '\r' || c = ' ') =
      (listText rs).take n := by
    rw [List.rdropWhile_eq_self_iff]
    intro hne h
    refine (hplain _ (List.getLast_mem hne)).1 ?_
    simpa [or_assoc] using h
  have hend : ((listText rs).take n ++ tail).rdropWhile (fun c => c = '\n' || c = '\r' || c = ' ') =
      (listText rs).take n := by
    rcases ht with rfl | rfl
    · rw [List.append_nil, hback]
    · rw [List.rdropWhile_concat_pos _ _ _ (by decide), hback]
  rw [aplCleanstring, hend]
  cases hl : (listText rs).take n with
  | nil => rfl
  | cons c cs =>
      have hc := (hplain c (by rw [hl]; exact List.mem_cons_self)).2
      exact List.dropWhile_cons_of_neg (by simpa using hc)

/-- Both functions return what the part that was read counts, or the number of CPUs of the
host where that is zero. -/
theorem getNumcpu_kernelList (size : Nat) (clean : Bool) (conf : BitVec 16) (S : Finset Nat) :
    getNumcpu size clean conf (some (kernelList S)) =
      let nbr := BitVec.ofInt 16 (S.card - lost (size - 1) (rangesOf S))
      if nbr = 0 then conf else nbr := by
  obtain ⟨tail, ht, hread⟩ := fgets_kernelList size S
  have hcount (t : List Char) (ht : LineEnd t) :
      countLine ((listText (rangesOf S)).take (size - 1) ++ t) =
        BitVec.ofInt 16 (S.card - lost (size - 1) (rangesOf S)) := by
    have hcard : total (rangesOf S) = S.card := by
      rw [rangesOf, total_runs, Finset.length_sort]
    rw [countLine_eq, sum_pieceCount ht, lost_eq, hcard, sub_sub_cancel]
  have hempty (data : List Char) :
      (if (if data = [] then conf else countLine data) = 0 then conf
        else if data = [] then conf else countLine data) =
        if countLine data = 0 then conf else countLine data := by
    by_cases hdata : data = []
    · have hnil : countLine [] = 0 := by decide
      subst hdata
      simp [hnil]
    · simp [hdata]
  rw [getNumcpu, Option.bind_some, hread]
  simp only [hempty, cstr_line ht, aplCleanstring_line ht]
  -- with or without its newline the line counts the same
  cases clean with
  | false => rw [if_neg Bool.false_ne_true, hcount tail ht]
  | true =>
      have hclean := hcount [] (Or.inl rfl)
      rw [List.append_nil] at hclean
      rw [if_pos rfl, hclean]

/-- One function is right just where the set is spared. -/
theorem getNumcpu_toNat_iff (size : Nat) (clean : Bool) {S : Finset Nat} (hne : S.Nonempty)
    (hcard : S.card < 65536) (conf : BitVec 16) :
    (getNumcpu size clean conf (some (kernelList S))).toNat = S.card ↔
      Spared conf (size - 1) S := by
  have hpos : 0 < S.card := hne.card_pos
  rw [getNumcpu_kernelList, Spared]
  generalize lost (size - 1) (rangesOf S) = l
  have hvalue : (BitVec.ofInt 16 (S.card - l)).toNat = ((S.card - l) % 65536).toNat := by
    rw [BitVec.toNat_ofInt]
    rfl
  have hzero : BitVec.ofInt 16 (S.card - l) = 0 ↔ (65536 : Int) ∣ S.card - l := by
    rw [← BitVec.toNat_inj, hvalue]
    simp only [BitVec.ofNat_eq_ofNat, BitVec.toNat_ofNat]
    omega
  by_cases hdvd : (65536 : Int) ∣ S.card - l
  · have hnot : ¬(65536 : Int) ∣ l := by omega
    simp only [if_pos (hzero.mpr hdvd), hnot, false_or, hdvd, true_and]
  · simp only [if_neg (fun h => hdvd (hzero.mp h)), hvalue, hdvd, false_and, or_false]
    omega

/-- Both functions are right just where the set is spared by both buffers. -/
theorem sysGetNumcpu_counts_iff (S : Finset Nat) (hne : S.Nonempty) (hcard : S.card < 65536)
    (conf : BitVec 16) :
    ((sysGetNumcpu conf (some (kernelList S))).toNat = S.card ∧
        (prcGetnbrcpu conf (some (kernelList S))).toNat = S.card) ↔
      Spared conf 199 S ∧ Spared conf 198 S :=
  and_congr (getNumcpu_toNat_iff 200 false hne hcard conf)
    (getNumcpu_toNat_iff 199 true hne hcard conf)

/-- A range, a number by itself and one more range: `0-3,7,9-10`. -/
def someCpus : Finset Nat := [0, 1, 2, 3, 7, 9, 10].toFinset

theorem someCpus_sort : someCpus.sort = [0, 1, 2, 3, 7, 9, 10] :=
  (List.toFinset_sort (· ≤ ·) (by decide)).mpr (by decide)

theorem sysGetNumcpu_counts_ranges :
    (sysGetNumcpu 16 (some (kernelList someCpus))).toNat = someCpus.card ∧
      (prcGetnbrcpu 16 (some (kernelList someCpus))).toNat = someCpus.card := by
  have hspared (n : Nat) (hlost : lost n (runs [0, 1, 2, 3, 7, 9, 10]) = 0) :
      Spared 16 n someCpus := by
    apply Or.inl
    rw [rangesOf, someCpus_sort, hlost]
    exact dvd_zero _
  apply (sysGetNumcpu_counts_iff someCpus ⟨0, by decide⟩ (by decide) 16).mpr
  exact ⟨hspared 199 (by decide), hspared 198 (by decide)⟩

/-- The even numbers below 140. -/
def evenCpus : Finset Nat := ((List.range 70).map (2 * ·)).toFinset

theorem evenCpus_sort : evenCpus.sort = (List.range 70).map (2 * ·) :=
  (List.toFinset_sort (· ≤ ·) (by decide)).mpr (by decide)

/-- Of the 70 even numbers below 140 on a host with 140 CPUs, 64 are counted: the buffer
ends behind `12` of `126`. -/
theorem sysGetNumcpu_misses_cpus :
    evenCpus.Nonempty ∧ evenCpus.card = 70 ∧
      (sysGetNumcpu 140 (some (kernelList evenCpus))).toNat = 64 := by
  have hcard : evenCpus.card = 70 := by
    rw [← Finset.length_sort (· ≤ ·), evenCpus_sort, List.length_map, List.length_range]
  have hlost : lost 199 (rangesOf evenCpus) = 6 := by
    rw [rangesOf, evenCpus_sort]
    decide
  refine ⟨Finset.card_pos.mp (by omega), hcard, ?_⟩
  rw [sysGetNumcpu, getNumcpu_kernelList, hcard, hlost]
  decide

end Vzgot.Cpu
