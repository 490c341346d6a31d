import Mathlib.Algebra.Group.Nat.Defs
import Mathlib.Data.List.TakeWhile
import Mathlib.Data.Rat.Defs

/-!
# Line input and decimal conversion of the C library

Bytes are characters. `fgets size bytes` is the first line as `fgets` stores it in
a buffer of `size` bytes, `scanInt` the integer that the conversion `%d` of
`sscanf` reads, `strtod` the decimal number that `strtod` reads, as an exact
rational, and `printNat` the text that the conversion `%d` of `printf` writes for a
nonnegative number, with a minimal width and the space flag. A printed number
followed by a newline is read back unchanged (`scanInt_fgets_printNat`).
-/

set_option autoImplicit false

namespace Vzgot.Stdio

/-- The string a C function sees in a buffer: the bytes before the first NUL. -/
def cstr (s : List Char) : List Char := s.takeWhile (· ≠ '\x00')

/-- Bytes up to and including the first newline, at most `n` of them. -/
def takeLine : Nat → List Char → List Char
  | 0, _ => []
  | _ + 1, [] => []
  | n + 1, c :: cs => if c = '\n' then [c] else c :: takeLine n cs

/-- `fgets` into a buffer of `size` bytes; `none` is the null pointer returned at
the end of the file. -/
def fgets (size : Nat) (bytes : List Char) : Option (List Char) :=
  if bytes = [] then none else some (takeLine (size - 1) bytes)

/-- `isspace` in the C locale. -/
def isSpace (c : Char) : Bool :=
  c = ' ' || c = '\t' || c = '\n' || c = '\x0b' || c = '\x0c' || c = '\r'

/-- Value of the longest digit prefix, if it is not empty. -/
def scanNat (s : List Char) : Option Nat :=
  match s.takeWhile Char.isDigit with
  | [] => none
  | ds => some (Nat.ofDigitChars 10 ds 0)

/-- The integer stored by `sscanf(s,"%d",..)`, or `none` when it stores nothing.
Numbers that do not fit an `int` are undefined in C and kept as they are. -/
def scanInt (s : List Char) : Option Int :=
  match s.dropWhile isSpace with
  | '-' :: r => (scanNat r).map fun n => -(n : Int)
  | '+' :: r => (scanNat r).map fun n => (n : Int)
  | r => (scanNat r).map fun n => (n : Int)

/-- The word that the conversion `%s` of `sscanf` reads, without a width. -/
def scanWord (s : List Char) : List Char := (s.dropWhile isSpace).takeWhile fun c => !isSpace c

/-- The conversion `%n[^c]` of `sscanf`: the characters up to `c`, at most `n` and at least
one of them, and what is left behind them. -/
def scanUntil (n : Nat) (c : Char) (s : List Char) : Option (List Char × List Char) :=
  match (s.take n).takeWhile (· ≠ c) with
  | [] => none
  | w => some (w, s.drop w.length)

/-- The exponent of a number of `strtod`, and what follows it; without digits there is
no exponent. -/
def scanExponent : List Char → Int × List Char
  | c :: r =>
      if c = 'e' ∨ c = 'E' then
        let sign : Int := if r.head? = some '-' then -1 else 1
        let t := if r.head? = some '-' ∨ r.head? = some '+' then r.tail else r
        match t.span Char.isDigit with
        | ([], _) => (0, c :: r)
        | (ds, rest) => (sign * Nat.ofDigitChars 10 ds 0, rest)
      else (0, c :: r)
  | [] => (0, [])

/-- `strtod` of a decimal number, exactly, and the part of the string behind it. The other
forms that `strtod` takes are left out: of a hexadecimal number only the `0` before its `x`
is read, and of `INF` and `NAN`, which are no rationals, nothing. -/
def strtod (s : List Char) : Rat × List Char :=
  let t := s.dropWhile isSpace
  let sign : Rat := if t.head? = some '-' then -1 else 1
  let t := if t.head? = some '-' ∨ t.head? = some '+' then t.tail else t
  let (whole, r) := t.span Char.isDigit
  let (frac, r) := if r.head? = some '.' then r.tail.span Char.isDigit else ([], r)
  if whole ++ frac = [] then (0, s)
  else
    let (e, r) := scanExponent r
    (sign * Nat.ofDigitChars 10 (whole ++ frac) 0 * (10 : Rat) ^ (e - frac.length), r)

/-- The conversion `%d` with minimal width `width`, and with the space flag when
`space` is set, of a nonnegative number. -/
def printNat (space : Bool) (width n : Nat) : List Char :=
  let body := (if space then [' '] else []) ++ Nat.toDigits 10 n
  List.replicate (width - body.length) ' ' ++ body

/-- The conversion `%d` of `printf`. -/
def printInt (n : Int) : List Char := (if n < 0 then ['-'] else []) ++ Nat.toDigits 10 n.natAbs

section UpTo

variable {α : Type} [DecidableEq α] {c : α} {s : List α} (hs : c ∉ s)
include hs

theorem takeWhile_ne_of_not_mem : s.takeWhile (· ≠ c) = s := by
  rw [List.takeWhile_eq_self_iff]
  intro d hd
  exact decide_eq_true fun h => hs (h ▸ hd)

/-- What stands in front of a character is what is read up to it. -/
theorem takeWhile_ne_append (rest : List α) : (s ++ c :: rest).takeWhile (· ≠ c) = s := by
  have hcons : (c :: rest).takeWhile (· ≠ c) = [] := List.takeWhile_cons_of_neg (by simp)
  rw [List.takeWhile_append_of_pos, hcons, List.append_nil]
  intro d hd
  exact decide_eq_true fun h => hs (h ▸ hd)

theorem dropWhile_ne_append (rest : List α) : (s ++ c :: rest).dropWhile (· ≠ c) = c :: rest := by
  have hcons : (c :: rest).dropWhile (· ≠ c) = c :: rest := List.dropWhile_cons_of_neg (by simp)
  rw [List.dropWhile_append_of_pos, hcons]
  intro d hd
  exact decide_eq_true fun h => hs (h ▸ hd)

end UpTo

theorem cstr_append {s : List Char} (hs : '\x00' ∉ s) (rest : List Char) :
    cstr (s ++ '\x00' :: rest) = s :=
  takeWhile_ne_append hs rest

theorem nul_not_mem_cstr (s : List Char) : '\x00' ∉ cstr s := by
  intro h
  simpa using List.mem_takeWhile_imp h

theorem cstr_of_not_mem {s : List Char} (hs : '\x00' ∉ s) : cstr s = s :=
  takeWhile_ne_of_not_mem hs

theorem takeLine_of_not_mem {l : List Char} (hl : '\n' ∉ l) (rest : List Char) {n : Nat}
    (hn : l.length < n) : takeLine n (l ++ '\n' :: rest) = l ++ ['\n'] := by
  induction l generalizing n with
  | nil =>
      obtain ⟨m, rfl⟩ : ∃ m, n = m + 1 := ⟨n - 1, by simp at hn; omega⟩
      simp [takeLine]
  | cons c cs ih =>
      obtain ⟨m, rfl⟩ : ∃ m, n = m + 1 := ⟨n - 1, by simp at hn; omega⟩
      have hc : c ≠ '\n' := fun h => hl (by simp [h])
      have hcs : '\n' ∉ cs := fun h => hl (by simp [h])
      have hlen : cs.length < m := by simpa using hn
      simp only [List.cons_append, takeLine, hc, if_false, ih hcs hlen]

theorem scanWord_of_head {s : List Char} (h : ∀ c ∈ s.head?, isSpace c = false) :
    scanWord s = s.takeWhile fun c => !isSpace c := by
  cases s with
  | nil => rfl
  | cons c cs =>
      rw [scanWord, List.dropWhile_cons_of_neg]
      simp [h c rfl]

/-- White space behind the word does not matter. -/
theorem scanWord_append_space (s : List Char) {t : List Char} (ht : ∀ c ∈ t, isSpace c = true) :
    scanWord (s ++ t) = scanWord s := by
  rw [scanWord, scanWord, List.dropWhile_append]
  have hdrop : t.dropWhile isSpace = [] := List.dropWhile_eq_nil_iff.mpr ht
  by_cases hs : s.dropWhile isSpace = []
  · simp [hs, hdrop]
  · have htake : t.takeWhile (fun c => !isSpace c) = [] := by
      cases t with
      | nil => rfl
      | cons c cs => exact List.takeWhile_cons_of_neg (by simp [ht c List.mem_cons_self])
    rw [if_neg (by simpa using hs), List.takeWhile_append, htake, List.append_nil]
    split
    · rename_i hlen
      rw [(List.takeWhile_prefix _).eq_of_length hlen]
    · rfl

theorem isDigit_of_mem_toDigits {c : Char} {n : Nat} (h : c ∈ Nat.toDigits 10 n) :
    c.isDigit = true :=
  Nat.isDigit_of_mem_toDigits (by decide) (by decide) h

theorem isSpace_of_isDigit {c : Char} (h : c.isDigit = true) : isSpace c = false := by
  cases hs : isSpace c with
  | false => rfl
  | true =>
      simp only [isSpace, Bool.or_eq_true, decide_eq_true_eq] at hs
      rcases hs with ((((rfl | rfl) | rfl) | rfl) | rfl) | rfl <;> simp at h

/-- Fewer digits of a number are a smaller number. -/
theorem ofDigitChars_take_lt {n k : Nat} (hn : 0 < n) (hk : k < (Nat.toDigits 10 n).length) :
    Nat.ofDigitChars 10 ((Nat.toDigits 10 n).take k) 0 < n := by
  have hsplit : Nat.ofDigitChars 10 (Nat.toDigits 10 n) 0 = n := Nat.ofDigitChars_ten_toDigits
  rw [← List.take_append_drop k (Nat.toDigits 10 n), Nat.ofDigitChars_append,
    Nat.ofDigitChars_eq_ofDigitChars_zero] at hsplit
  generalize Nat.ofDigitChars 10 ((Nat.toDigits 10 n).take k) 0 = x at hsplit ⊢
  obtain ⟨m, hm⟩ : ∃ m, ((Nat.toDigits 10 n).drop k).length = m + 1 :=
    ⟨(Nat.toDigits 10 n).length - k - 1, by rw [List.length_drop]; omega⟩
  rw [hm, Nat.pow_succ, Nat.mul_assoc] at hsplit
  have hpow : 1 * (10 * x) ≤ 10 ^ m * (10 * x) :=
    Nat.mul_le_mul_right _ (Nat.one_le_pow _ _ (by decide))
  omega

/-- A printed number is blanks followed by its digits. -/
theorem printNat_eq (space : Bool) (width n : Nat) :
    ∃ k, printNat space width n = List.replicate k ' ' ++ Nat.toDigits 10 n := by
  cases space with
  | false => exact ⟨width - (Nat.toDigits 10 n).length, by simp [printNat]⟩
  | true =>
      refine ⟨width - (' ' :: Nat.toDigits 10 n).length + 1, ?_⟩
      simp [printNat, List.replicate_succ']

/-- A printed number holds blanks and digits only. -/
theorem not_mem_printNat {c : Char} (hblank : c ≠ ' ') (hdigit : c.isDigit = false)
    (space : Bool) (width n : Nat) : c ∉ printNat space width n := by
  obtain ⟨k, hk⟩ := printNat_eq space width n
  rw [hk, List.mem_append, List.mem_replicate]
  rintro (⟨-, h⟩ | h)
  · exact hblank h
  · exact absurd (isDigit_of_mem_toDigits h) (by simp [hdigit])

theorem printNat_length_le (space : Bool) (width : Nat) {n d : Nat} (hd : 0 < d)
    (hn : n < 10 ^ d) : (printNat space width n).length ≤ max width (d + 1) := by
  have hdig : (Nat.toDigits 10 n).length ≤ d :=
    (Nat.length_toDigits_le_iff (by decide) hd).2 hn
  cases space with
  | false =>
      simp only [printNat, Bool.false_eq_true, if_false, List.nil_append, List.length_append,
        List.length_replicate]
      omega
  | true =>
      simp only [printNat, if_true, List.cons_append, List.nil_append, List.length_append,
        List.length_replicate, List.length_cons]
      omega

/-- Digits up to a character that is no digit are read as the number they are. -/
theorem scanNat_digits {ds : List Char} (hne : ds ≠ []) (hds : ∀ c ∈ ds, c.isDigit = true)
    {rest : List Char} (hrest : ∀ c ∈ rest.head?, c.isDigit = false) :
    scanNat (ds ++ rest) = some (Nat.ofDigitChars 10 ds 0) := by
  have htail : rest.takeWhile Char.isDigit = [] := by
    cases rest with
    | nil => rfl
    | cons c cs => exact List.takeWhile_cons_of_neg (by simp [hrest c rfl])
  rw [scanNat, List.takeWhile_append_of_pos hds, htail, List.append_nil]
  cases ds with
  | nil => exact absurd rfl hne
  | cons d ds => rfl

/-- Blanks in front of the digits do not matter, and there is no sign. -/
theorem scanInt_digits (k : Nat) {ds : List Char} (hne : ds ≠ [])
    (hds : ∀ c ∈ ds, c.isDigit = true) {rest : List Char}
    (hrest : ∀ c ∈ rest.head?, c.isDigit = false) :
    scanInt (List.replicate k ' ' ++ ds ++ rest) = some (Nat.ofDigitChars 10 ds 0 : Int) := by
  have hnat := scanNat_digits hne hds hrest
  obtain ⟨d, ds', rfl⟩ := List.exists_cons_of_ne_nil hne
  have hdigit : d.isDigit = true := hds d List.mem_cons_self
  have hdrop : (List.replicate k ' ' ++ (d :: ds') ++ rest).dropWhile isSpace
      = d :: (ds' ++ rest) := by
    rw [List.append_assoc, List.dropWhile_append_of_pos (by simp [isSpace]), List.cons_append,
      List.dropWhile_cons_of_neg (by simp [isSpace_of_isDigit hdigit])]
  have hminus : d ≠ '-' := by rintro rfl; simp at hdigit
  have hplus : d ≠ '+' := by rintro rfl; simp at hdigit
  rw [scanInt, hdrop]
  split
  · rename_i heq
    exact absurd (List.cons.inj heq).1 hminus
  · rename_i heq
    exact absurd (List.cons.inj heq).1 hplus
  · rw [← List.cons_append, hnat]
    rfl

/-- A number printed and followed by a character that is no digit is scanned back. -/
theorem scanInt_printNat (space : Bool) (width n : Nat) {c : Char} (hc : c.isDigit = false)
    (rest : List Char) : scanInt (printNat space width n ++ c :: rest) = some (n : Int) := by
  obtain ⟨k, hk⟩ := printNat_eq space width n
  have hrest : ∀ d ∈ (c :: rest).head?, d.isDigit = false := by simpa using hc
  rw [hk, scanInt_digits k Nat.toDigits_ne_nil (fun _ => isDigit_of_mem_toDigits) hrest,
    Nat.ofDigitChars_ten_toDigits]

/-- A number printed on a line of its own is read back by `fgets` and `%d`. -/
theorem scanInt_fgets_printNat (space : Bool) (width n : Nat) {size : Nat}
    (hsize : (printNat space width n).length + 1 < size) (rest : List Char) :
    fgets size (printNat space width n ++ '\n' :: rest) = some (printNat space width n ++ ['\n']) ∧
      scanInt (printNat space width n ++ ['\n']) = some (n : Int) := by
  constructor
  · rw [fgets, if_neg (by simp),
      takeLine_of_not_mem (not_mem_printNat (by decide) (by decide) space width n) rest (by omega)]
  · exact scanInt_printNat space width n (by decide) []

/-- A printed number holds no NUL, so its line is the whole C string. -/
theorem cstr_printNat (space : Bool) (width n : Nat) :
    cstr (printNat space width n ++ ['\n']) = printNat space width n ++ ['\n'] := by
  apply cstr_of_not_mem
  intro h
  rcases List.mem_append.mp h with h | h
  · exact not_mem_printNat (by decide) (by decide) space width n h
  · exact absurd (List.mem_singleton.mp h) (by decide)

end Vzgot.Stdio
