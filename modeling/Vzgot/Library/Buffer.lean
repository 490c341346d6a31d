import Vzgot.Library.Stdio

/-!
# Strings in a character array

A `CharArray n` is a C array of `n` characters. Reading and writing are checked: `store`
gives no array when a character would be written outside of it, `strlen` no length when
no NUL ends the string inside of it, and `behind` no string when the pointer has left the
string it was computed from. `Holds b pre t` says that the array begins with `pre`, with
`t` and a NUL behind it; the rules say what it holds after each kind of writing.
-/

set_option autoImplicit false

namespace Vzgot.Buffer

open Vzgot.Stdio

/-! ## The string before the first NUL -/

/-- A string ends before the first NUL. -/
theorem eq_cstr_append {s : List Char} (h : '\x00' ∈ s) : ∃ rest, s = cstr s ++ '\x00' :: rest := by
  induction s with
  | nil => cases h
  | cons c s ih =>
      by_cases hc : c = '\x00'
      · subst hc
        exact ⟨s, by simp [cstr]⟩
      · have hs : '\x00' ∈ s := (List.mem_cons.mp h).resolve_left fun h' => hc h'.symm
        obtain ⟨rest, hrest⟩ := ih hs
        refine ⟨rest, ?_⟩
        have hcons : cstr (c :: s) = c :: cstr s := List.takeWhile_cons_of_pos (by simp [hc])
        rw [hcons, List.cons_append, ← hrest]

/-! ## Arrays -/

/-- An array of characters. -/
structure CharArray (size : Nat) where
  bytes : List Char
  length_eq : bytes.length = size

namespace CharArray

section Definitions

variable {size : Nat} (b : CharArray size)

/-- The string at a place. -/
def text (i : Nat) : List Char := cstr (b.bytes.drop i)

/-- The string at the place ends inside of the array. -/
def Ended (i : Nat) : Prop := '\x00' ∈ b.bytes.drop i

/-- `strlen` -/
def strlen (i : Nat) : Option Nat :=
  if '\x00' ∈ b.bytes.drop i then some (b.text i).length else none

/-- The string `n` characters behind a place, when the string there is not shorter. -/
def behind (i n : Nat) : Option (List Char) :=
  (b.strlen i).bind fun len => if n ≤ len then some (b.text (i + n)) else none

/-- Characters written one after the other from a place on. -/
def store (i : Nat) (s : List Char) : Option (CharArray size) :=
  if h : i + s.length ≤ size then
    some ⟨b.bytes.take i ++ s ++ b.bytes.drop (i + s.length), by
      have hlen := b.length_eq
      simp only [List.length_append, List.length_take, List.length_drop]
      omega⟩
  else none

/-- The array begins with `pre`, and `t` and a NUL stand behind it. -/
def Holds (pre t : List Char) : Prop := ∃ rest, b.bytes = pre ++ t ++ '\x00' :: rest

end Definitions

/-! ## The string at a place -/

section Rules

variable {size : Nat} {b : CharArray size} {pre t s : List Char} {i n k : Nat}

theorem Ended.lt_size (h : b.Ended i) : i < size := by
  have hpos := List.length_pos_of_mem h
  rw [List.length_drop, b.length_eq] at hpos
  omega

/-- Every ended string is held behind what is in front of it. -/
theorem Ended.holds (h : b.Ended i) : b.Holds (b.bytes.take i) (b.text i) := by
  obtain ⟨rest, hrest⟩ := eq_cstr_append h
  refine ⟨rest, ?_⟩
  rw [List.append_assoc, text, ← hrest, List.take_append_drop]

theorem Ended.length_take (h : b.Ended i) : (b.bytes.take i).length = i := by
  rw [List.length_take, b.length_eq]
  exact Nat.min_eq_left (Nat.le_of_lt (Ended.lt_size h))

variable (h : b.Holds pre t)
include h

theorem Holds.drop : ∃ rest, b.bytes.drop pre.length = t ++ '\x00' :: rest := by
  obtain ⟨rest, hrest⟩ := h
  exact ⟨rest, by rw [hrest, List.append_assoc, List.drop_left]⟩

theorem Holds.ended : b.Ended pre.length := by
  obtain ⟨rest, hrest⟩ := Holds.drop h
  rw [Ended, hrest]
  exact List.mem_append_right t List.mem_cons_self

theorem Holds.length_lt : pre.length + t.length < size := by
  obtain ⟨rest, hrest⟩ := h
  have hlen := congrArg List.length hrest
  rw [b.length_eq, List.length_append, List.length_append, List.length_cons] at hlen
  omega

theorem Holds.text (ht : '\x00' ∉ t) : b.text pre.length = t := by
  obtain ⟨rest, hrest⟩ := Holds.drop h
  rw [CharArray.text, hrest, cstr_append ht]

theorem Holds.strlen (ht : '\x00' ∉ t) : b.strlen pre.length = some t.length := by
  have hend : '\x00' ∈ b.bytes.drop pre.length := Holds.ended h
  rw [CharArray.strlen, if_pos hend, Holds.text h ht]

/-- What is in front of the string may be taken further. -/
theorem Holds.shift (n : Nat) : b.Holds (pre ++ t.take n) (t.drop n) := by
  obtain ⟨rest, hrest⟩ := h
  refine ⟨rest, ?_⟩
  rw [hrest, List.append_assoc pre (t.take n), List.take_append_drop]

theorem Holds.behind (ht : '\x00' ∉ t) (hn : n ≤ t.length) :
    b.behind pre.length n = some (t.drop n) := by
  have hplace : (pre ++ t.take n).length = pre.length + n := by
    rw [List.length_append, List.length_take, Nat.min_eq_left hn]
  have htext := Holds.text (Holds.shift h n) fun hmem => ht (List.mem_of_mem_drop hmem)
  rw [CharArray.behind, Holds.strlen h ht, Option.bind_some, if_pos hn, ← hplace, htext]

/-- A pointer behind the NUL gives no string. -/
theorem Holds.behind_eq_none (ht : '\x00' ∉ t) (hn : t.length < n) :
    b.behind pre.length n = none := by
  rw [CharArray.behind, Holds.strlen h ht, Option.bind_some, if_neg (Nat.not_le.mpr hn)]

end Rules

/-! ## Writing -/

section Store

variable {size : Nat} {b : CharArray size} {pre t s tail : List Char} {i n k : Nat}

theorem store_eq_none (h : size < i + s.length) : b.store i s = none := by
  rw [store, dif_neg (Nat.not_le.mpr h)]

/-- What is written takes the place of as many characters. -/
theorem exists_store (hb : b.bytes = pre ++ tail) (hs : s.length ≤ tail.length) :
    ∃ b', b.store pre.length s = some b' ∧ b'.bytes = pre ++ s ++ tail.drop s.length := by
  have hroom : pre.length + s.length ≤ size := by
    rw [← b.length_eq, hb, List.length_append]
    omega
  refine ⟨_, dif_pos hroom, ?_⟩
  show b.bytes.take pre.length ++ s ++ b.bytes.drop (pre.length + s.length) = _
  rw [hb, List.take_left, ← List.drop_drop, List.drop_left]

/-- A string written to the front of the array. -/
theorem exists_store_string (b : CharArray size) (hs : s.length < size) :
    ∃ b', b.store 0 (s ++ ['\x00']) = some b' ∧ b'.Holds [] s := by
  have hlen : (s ++ ['\x00']).length ≤ b.bytes.length := by
    rw [List.length_append, List.length_singleton, b.length_eq]
    exact hs
  have hb : b.bytes = [] ++ b.bytes := rfl
  obtain ⟨b', hstore, hbytes⟩ := exists_store hb hlen
  refine ⟨b', hstore, b.bytes.drop (s ++ ['\x00']).length, ?_⟩
  rw [hbytes]
  simp only [List.append_assoc, List.nil_append, List.singleton_append]

/-- Characters written over the beginning of the string. -/
theorem Holds.store_le (h : b.Holds pre t) (hs : s.length ≤ t.length) :
    ∃ b', b.store pre.length s = some b' ∧ b'.Holds pre (s ++ t.drop s.length) := by
  obtain ⟨rest, hrest⟩ := h
  rw [List.append_assoc] at hrest
  have hlen : s.length ≤ (t ++ '\x00' :: rest).length := by
    rw [List.length_append]
    omega
  obtain ⟨b', hstore, hbytes⟩ := exists_store hrest hlen
  refine ⟨b', hstore, rest, ?_⟩
  rw [hbytes, List.drop_append_of_le_length hs, List.append_assoc, List.append_assoc,
    List.append_assoc]

/-- Characters written over the whole string, and a NUL behind them. -/
theorem Holds.store_end (h : b.Holds pre t) (hroom : pre.length + s.length < size) :
    ∃ b₁ b₂, b.store pre.length s = some b₁ ∧
      b₁.store (pre.length + s.length) ['\x00'] = some b₂ ∧ b₂.Holds pre s := by
  obtain ⟨rest, hrest⟩ := h
  rw [List.append_assoc] at hrest
  have htail : s.length < (t ++ '\x00' :: rest).length := by
    have hsize := b.length_eq
    rw [hrest, List.length_append] at hsize
    omega
  obtain ⟨b₁, hstore₁, hbytes₁⟩ := exists_store hrest (Nat.le_of_lt htail)
  have hnul : ['\x00'].length ≤ ((t ++ '\x00' :: rest).drop s.length).length := by
    rw [List.length_drop, List.length_singleton]
    omega
  obtain ⟨b₂, hstore₂, hbytes₂⟩ := exists_store hbytes₁ hnul
  rw [List.length_append] at hstore₂
  refine ⟨b₁, b₂, hstore₁, hstore₂, ((t ++ '\x00' :: rest).drop s.length).drop 1, ?_⟩
  rw [hbytes₂]
  simp only [List.append_assoc, List.singleton_append, List.length_singleton]

/-- The end of the string moved to the front, with its NUL. -/
theorem Holds.store_tail (h : b.Holds pre t) (hn : n ≤ k) (hk : k ≤ t.length) :
    ∃ b', b.store (pre.length + n) (t.drop k ++ ['\x00']) = some b' ∧
      b'.Holds pre (t.take n ++ t.drop k) := by
  obtain ⟨rest, hrest⟩ := Holds.shift h n
  rw [List.append_assoc] at hrest
  have hplace : (pre ++ t.take n).length = pre.length + n := by
    rw [List.length_append, List.length_take, Nat.min_eq_left (hn.trans hk)]
  have hlen : (t.drop k ++ ['\x00']).length ≤ (t.drop n ++ '\x00' :: rest).length := by
    simp only [List.length_append, List.length_drop, List.length_cons, List.length_nil]
    omega
  obtain ⟨b', hstore, hbytes⟩ := exists_store hrest hlen
  rw [hplace] at hstore
  refine ⟨b', hstore, (t.drop n ++ '\x00' :: rest).drop (t.drop k ++ ['\x00']).length, ?_⟩
  rw [hbytes]
  simp only [List.append_assoc, List.singleton_append]

end Store

end CharArray

end Vzgot.Buffer
