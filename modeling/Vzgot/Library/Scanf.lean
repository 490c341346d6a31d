import Mathlib.Algebra.Group.Int.Defs
import Mathlib.Data.List.TakeDrop
import Vzgot.Library.Stdio

/-!
# Conversions of `sscanf`

Parts of a format as functions on the input: each gives what is left of the input behind
it, or nothing when it does not match. `scanLit` is a text of the format, `scanUlong` the
conversion `%llu`, which wraps negative numbers and stops at the largest one, `scanInteger`
the conversion `%d`, and `skipFloat` the conversion `%*f`. A text, a decimal number and a
decimal fraction are scanned to their end (`scanLit_append`, `scanUlong_append`,
`skipFloat_append`).
-/

set_option autoImplicit false

namespace Vzgot.Stdio

/-- White space of the format. -/
def skipSpace (s : List Char) : List Char := s.dropWhile isSpace

/-- A text of the format without white space. -/
def scanLit (lit s : List Char) : Option (List Char) :=
  if lit.isPrefixOf s then some (s.drop lit.length) else none

/-- A text in letters of either case; `lit` has small letters. -/
def scanNocase (lit s : List Char) : Option (List Char) :=
  if (s.take lit.length).map Char.toLower = lit then some (s.drop lit.length) else none

/-- The sign of a number, if it has one. -/
def skipSign (s : List Char) : List Char :=
  if s.head? = some '-' ∨ s.head? = some '+' then s.tail else s

/-- The conversion `%llu`: the number, and what is behind it. -/
def scanUlong (s : List Char) : Option (BitVec 64 × List Char) :=
  let t := skipSpace s
  match (skipSign t).span Char.isDigit with
  | ([], _) => none
  | (ds, rest) =>
      let n := Nat.ofDigitChars 10 ds 0
      some (if 2 ^ 64 ≤ n then BitVec.allOnes 64
        else if t.head? = some '-' then -BitVec.ofNat 64 n
        else BitVec.ofNat 64 n, rest)

/-- The conversion `%d`: the number and what is behind it. A number that does not fit an
`int` is undefined in C and kept as it is; `strtoll` bounds it. -/
def scanInteger (s : List Char) : Option (Int × List Char) :=
  let t := skipSpace s
  match (skipSign t).span Char.isDigit with
  | ([], _) => none
  | (ds, rest) =>
      let n : Int := Nat.ofDigitChars 10 ds 0
      some (if t.head? = some '-' then -n else n, rest)

/-- `strtoll` in base 10: the number, kept in the range of a `long long`, and what is
behind it. -/
def strtoll (s : List Char) : Int × List Char :=
  match scanInteger s with
  | some (n, rest) => (max (-2 ^ 63) (min (2 ^ 63 - 1) n), rest)
  | none => (0, s)

/-- Digits, with a point at most, and at least one of them. -/
def skipMantissa (digit : Char → Bool) (s : List Char) : Option (List Char) :=
  let (whole, r) := s.span digit
  let (frac, r) := if r.head? = some '.' then r.tail.span digit else ([], r)
  if whole ++ frac = [] then none else some r

/-- An exponent behind the letter `mark`, which then has digits. -/
def skipExponent (mark : Char) (s : List Char) : Option (List Char) :=
  if s.head?.map Char.toLower = some mark then
    match (skipSign s.tail).span Char.isDigit with
    | ([], _) => none
    | (_, rest) => some rest
  else some s

/-- The parentheses behind `nan`. -/
def skipPayload (s : List Char) : Option (List Char) :=
  if s.head? = some '(' then
    scanLit [')'] (s.tail.dropWhile fun c => c.isAlphanum || c = '_')
  else some s

def isHexDigit (c : Char) : Bool := c.isDigit || ('a' ≤ c.toLower && c.toLower ≤ 'f')

/-- The conversion `%*f`. What has begun as a number of a kind has to end as one. -/
def skipFloat (s : List Char) : Option (List Char) :=
  let t := skipSign (skipSpace s)
  match scanNocase "nan".toList t with
  | some r => skipPayload r
  | none =>
      match scanNocase "inf".toList t with
      | some r => if r.head?.map Char.toLower = some 'i' then scanNocase "inity".toList r else some r
      | none =>
          match scanNocase "0x".toList t with
          | some r => (skipMantissa isHexDigit r).bind (skipExponent 'p')
          | none => (skipMantissa Char.isDigit t).bind (skipExponent 'e')

/-! ## Scanning what is there -/

theorem scanLit_append (lit rest : List Char) : scanLit lit (lit ++ rest) = some rest := by
  rw [scanLit, if_pos (by simp), List.drop_left]

/-- A word up to the character that ends it, which may be behind the width. -/
theorem scanUntil_append {n : Nat} {c : Char} {w : List Char} (hne : w ≠ []) (hw : c ∉ w)
    (hlen : w.length ≤ n) (rest : List Char) :
    scanUntil n c (w ++ c :: rest) = some (w, c :: rest) := by
  have hword : ((w ++ c :: rest).take n).takeWhile (· ≠ c) = w := by
    rw [List.take_append, List.take_of_length_le hlen]
    cases n - w.length with
    | zero => rw [List.take_zero, List.append_nil, takeWhile_ne_of_not_mem hw]
    | succ k => rw [List.take_succ_cons, takeWhile_ne_append hw]
  rw [scanUntil, hword]
  cases w with
  | nil => exact absurd rfl hne
  | cons d w => simp

theorem skipSpace_of_not {c : Char} (hc : isSpace c = false) (s : List Char) :
    skipSpace (c :: s) = c :: s :=
  List.dropWhile_cons_of_neg (by simp [hc])

theorem span_append {p : Char → Bool} {ds rest : List Char} (hds : ∀ c ∈ ds, p c)
    (hrest : ∀ c ∈ rest.head?, ¬ p c) : (ds ++ rest).span p = (ds, rest) := by
  have hstop : rest.takeWhile p = [] ∧ rest.dropWhile p = rest := by
    cases rest with
    | nil => exact ⟨rfl, rfl⟩
    | cons c rest =>
        have hc : ¬ p c := hrest c rfl
        exact ⟨List.takeWhile_cons_of_neg hc, List.dropWhile_cons_of_neg hc⟩
  rw [List.span_eq_takeWhile_dropWhile, List.takeWhile_append_of_pos hds,
    List.dropWhile_append_of_pos hds, hstop.1, hstop.2, List.append_nil]

theorem toLower_of_isDigit {c : Char} (hc : c.isDigit) : c.toLower = c := by
  refine dif_neg ?_
  intro hupper
  simp only [Char.isDigit] at hc
  grind

/-- Digits begin with neither white space nor a sign. -/
theorem skip_digits {ds : List Char} (hne : ds ≠ []) (hds : ∀ c ∈ ds, c.isDigit) (rest : List Char) :
    skipSpace (ds ++ rest) = ds ++ rest ∧ skipSign (ds ++ rest) = ds ++ rest ∧
      (ds ++ rest).head? ≠ some '-' := by
  obtain ⟨d, ds, rfl⟩ := List.exists_cons_of_ne_nil hne
  have hd : d.isDigit := hds d List.mem_cons_self
  have hminus : d ≠ '-' := by rintro rfl; exact absurd hd (by decide)
  have hplus : d ≠ '+' := by rintro rfl; exact absurd hd (by decide)
  refine ⟨skipSpace_of_not (isSpace_of_isDigit hd) (ds ++ rest), ?_, ?_⟩
  · rw [skipSign, if_neg]
    simp [hminus, hplus]
  · exact fun h => hminus (Option.some.inj h)

/-- A number without sign is read to its end. -/
theorem scanUlong_append {ds rest : List Char} (hds : ∀ c ∈ ds, c.isDigit)
    (hrest : ∀ c ∈ rest.head?, ¬ c.isDigit) (hne : ds ≠ [])
    (hlt : Nat.ofDigitChars 10 ds 0 < 2 ^ 64) :
    scanUlong (ds ++ rest) = some (BitVec.ofNat 64 (Nat.ofDigitChars 10 ds 0), rest) := by
  obtain ⟨hspace, hsign, hminus⟩ := skip_digits hne hds rest
  obtain ⟨d, ds', rfl⟩ := List.exists_cons_of_ne_nil hne
  rw [scanUlong]
  simp only [hspace, hsign, span_append hds hrest, if_neg (Nat.not_le.mpr hlt), if_neg hminus]

theorem scanInteger_append {ds rest : List Char} (hds : ∀ c ∈ ds, c.isDigit)
    (hrest : ∀ c ∈ rest.head?, ¬ c.isDigit) (hne : ds ≠ []) :
    scanInteger (ds ++ rest) = some ((Nat.ofDigitChars 10 ds 0 : Int), rest) := by
  obtain ⟨hspace, hsign, hminus⟩ := skip_digits hne hds rest
  obtain ⟨d, ds', rfl⟩ := List.exists_cons_of_ne_nil hne
  rw [scanInteger]
  simp only [hspace, hsign, span_append hds hrest, if_neg hminus]

/-- A decimal fraction behind blanks is the number it says. -/
theorem strtod_append (k : Nat) {whole frac rest : List Char} (hne : whole ≠ [])
    (hwhole : ∀ c ∈ whole, c.isDigit) (hfrac : ∀ c ∈ frac, c.isDigit)
    (hrest : ∀ c ∈ rest.head?, ¬ c.isDigit ∧ c ≠ 'e' ∧ c ≠ 'E') :
    strtod (List.replicate k ' ' ++ (whole ++ '.' :: (frac ++ rest))) =
      ((Nat.ofDigitChars 10 (whole ++ frac) 0 : Rat) * 10 ^ (-frac.length : Int), rest) := by
  have hexponent : scanExponent rest = (0, rest) := by
    cases rest with
    | nil => rfl
    | cons c rest =>
        obtain ⟨-, hsmall, hlarge⟩ := hrest c rfl
        rw [scanExponent, if_neg (by simp [hsmall, hlarge])]
  have hpoint : ∀ c ∈ ('.' :: (frac ++ rest)).head?, ¬ c.isDigit := by
    rintro c ⟨⟩
    decide
  obtain ⟨d, ds, rfl⟩ := List.exists_cons_of_ne_nil hne
  have hd : d.isDigit = true := hwhole d List.mem_cons_self
  have hspan := span_append hwhole hpoint
  have hspan' := span_append hfrac fun c hc => (hrest c hc).1
  have hdrop : (List.replicate k ' ' ++ (d :: ds ++ '.' :: (frac ++ rest))).dropWhile isSpace =
      d :: ds ++ '.' :: (frac ++ rest) := by
    rw [List.dropWhile_append_of_pos (by simp [isSpace]), List.cons_append,
      List.dropWhile_cons_of_neg (by simp [isSpace_of_isDigit hd])]
  have hminus : d ≠ '-' := by rintro rfl; simp at hd
  have hplus : d ≠ '+' := by rintro rfl; simp at hd
  have hhead : (d :: ds ++ '.' :: (frac ++ rest)).head? = some d := rfl
  rw [strtod]
  simp only [hdrop, hhead, Option.some.injEq, hminus, hplus, or_self, if_false, hspan,
    List.head?_cons, if_true, List.tail_cons, hspan', hexponent]
  rw [if_neg (by simp), one_mul, Int.zero_sub]

/-- A decimal fraction is scanned to its end. -/
theorem skipFloat_append {whole frac rest : List Char} (hne : whole ≠ [])
    (hwhole : ∀ c ∈ whole, c.isDigit) (hfrac : ∀ c ∈ frac, c.isDigit)
    (hrest : ∀ c ∈ rest.head?, ¬ c.isDigit ∧ c.toLower ≠ 'e') :
    skipFloat (whole ++ '.' :: (frac ++ rest)) = some rest := by
  obtain ⟨d, ds, rfl⟩ := List.exists_cons_of_ne_nil hne
  have hd : d.isDigit := hwhole d List.mem_cons_self
  obtain ⟨hspace, hsign, -⟩ := skip_digits hne hwhole ('.' :: (frac ++ rest))
  have hmantissa : skipMantissa Char.isDigit (d :: ds ++ '.' :: (frac ++ rest)) = some rest := by
    have hpoint : ∀ c ∈ ('.' :: (frac ++ rest)).head?, ¬ c.isDigit := by
      rintro c hc
      obtain rfl := Option.some.inj hc
      decide
    rw [skipMantissa]
    simp only [span_append hwhole hpoint, List.head?_cons, if_true, List.tail_cons,
      span_append hfrac fun c hc => (hrest c hc).1]
    simp
  -- neither `nan` nor `inf` nor `0x`: a digit comes first, and a digit or the point behind it
  have hword : ∀ c lit, ¬ c.isDigit →
      scanNocase (c :: lit) (d :: ds ++ '.' :: (frac ++ rest)) = none := by
    intro c lit hc
    rw [scanNocase, if_neg]
    intro heq
    have hhead : d.toLower = c := (List.cons.inj heq).1
    rw [toLower_of_isDigit hd] at hhead
    exact hc (hhead ▸ hd)
  have hhex : scanNocase "0x".toList (d :: ds ++ '.' :: (frac ++ rest)) = none := by
    rw [scanNocase, if_neg]
    intro heq
    cases ds with
    | nil => exact absurd (List.cons.inj (List.cons.inj heq).2).1 (by decide)
    | cons e ds =>
        have he : e.isDigit := hwhole e (by simp)
        have hx : e.toLower = 'x' := (List.cons.inj (List.cons.inj heq).2).1
        rw [toLower_of_isDigit he] at hx
        exact absurd he (by rw [hx]; decide)
  have hexponent : skipExponent 'e' rest = some rest := by
    rw [skipExponent, if_neg]
    intro h
    obtain ⟨c, hc, hlower⟩ := Option.map_eq_some_iff.mp h
    exact (hrest c hc).2 hlower
  have hnan : scanNocase "nan".toList (d :: ds ++ '.' :: (frac ++ rest)) = none :=
    hword 'n' _ (by decide)
  have hinf : scanNocase "inf".toList (d :: ds ++ '.' :: (frac ++ rest)) = none :=
    hword 'i' _ (by decide)
  rw [skipFloat]
  simp only [hspace, hsign, hnan, hinf, hhex, hmantissa, Option.bind_some, hexponent]

end Vzgot.Stdio
