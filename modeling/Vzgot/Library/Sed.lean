import Mathlib.Data.List.Infix

/-!
# Text files, deleting lines, and replacing a field

`TextFile` is a file as its complete lines with the bytes behind the last newline.
`append` is what a shell does for `echo line >> file`, `delete` what `sed '/pattern/d'`
does. A pattern is a list of characters with wildcards; it is searched anywhere in a
line. `delete_append_eq_iff` says when deleting undoes an append, and
`infix_field_iff` reads the search for a text that ends a field. `replaceField` gives a
new value to what follows the first occurrence of a text in a line.
-/

set_option autoImplicit false

namespace Vzgot.Sed

/-- Complete lines, and the bytes behind the last newline. -/
structure TextFile where
  lines : List (List Char)
  rest : List Char

/-- One more line behind the bytes of the file. -/
def TextFile.append (f : TextFile) (line : List Char) : TextFile where
  lines := f.lines ++ [f.rest ++ line]
  rest := []

/-- Deletes the lines that `p` selects. -/
def TextFile.delete (f : TextFile) (p : List Char → Bool) : TextFile where
  lines := f.lines.filter fun l => !p l
  rest := if p f.rest then [] else f.rest

section Files

variable {f : TextFile} {p : List Char → Bool} {line : List Char}

theorem mem_delete {l : List Char} : l ∈ (f.delete p).lines ↔ l ∈ f.lines ∧ p l = false := by
  rw [TextFile.delete, List.mem_filter, Bool.not_eq_true']

theorem append_ne_self : f.append line ≠ f := by
  intro h
  have hlen := congrArg (fun g => g.lines.length) h
  simp [TextFile.append] at hlen

/-- Deleting undoes the append of a selected line exactly when the file ends with a
newline and no line of it is selected. -/
theorem delete_append_eq_iff (hline : p (f.rest ++ line) = true) :
    (f.append line).delete p = f ↔ f.rest = [] ∧ ∀ l ∈ f.lines, p l = false := by
  have hlines : ((f.append line).delete p).lines = f.lines.filter fun l => !p l := by
    simp [TextFile.append, TextFile.delete, List.filter_append, hline]
  have hrest : ((f.append line).delete p).rest = [] := by
    rw [TextFile.delete]
    exact ite_self _
  constructor
  · intro h
    rw [h] at hlines hrest
    refine ⟨hrest, fun l hl => ?_⟩
    simpa using List.filter_eq_self.1 hlines.symm l hl
  · rintro ⟨hnil, hnone⟩
    have hkeep : f.lines.filter (fun l => !p l) = f.lines := by
      apply List.filter_eq_self.2
      intro l hl
      rw [hnone l hl]
      rfl
    cases hf : (f.append line).delete p with
    | mk lines rest =>
        rw [hf] at hlines hrest
        cases f with
        | mk lines' rest' =>
            simp only at hlines hrest hnil hkeep
            rw [hlines, hkeep, hrest, hnil]

end Files

/-! ## Patterns -/

/-- A character, or `none` for any character. -/
abbrev Pattern := List (Option Char)

/-- The pattern written as a text, in which a dot is any character. -/
def basic (re : List Char) : Pattern := re.map fun c => if c = '.' then none else some c

/-- The pattern matches the first characters. -/
def matchesHead : Pattern → List Char → Bool
  | [], _ => true
  | _ :: _, [] => false
  | a :: p, x :: xs => a.all (· == x) && matchesHead p xs

/-- The pattern matches somewhere in the line. -/
def occurs (p : Pattern) : List Char → Bool
  | [] => matchesHead p []
  | x :: xs => matchesHead p (x :: xs) || occurs p xs

section Patterns

variable {p : Pattern} {u v line : List Char}

theorem occurs_iff : occurs p line = true ↔ ∃ t, t <:+ line ∧ matchesHead p t = true := by
  induction line with
  | nil => simp [occurs]
  | cons x xs ih =>
      rw [occurs, Bool.or_eq_true, ih]
      constructor
      · rintro (h | ⟨t, ht, hm⟩)
        · exact ⟨_, List.suffix_refl _, h⟩
        · exact ⟨t, ht.trans (List.suffix_cons x xs), hm⟩
      · rintro ⟨t, ht, hm⟩
        rcases List.suffix_cons_iff.1 ht with rfl | ht
        · exact .inl hm
        · exact .inr ⟨t, ht, hm⟩

/-- A pattern without wildcards is a text. -/
theorem matchesHead_map_some : matchesHead (u.map some) v = true ↔ u <+: v := by
  induction u generalizing v with
  | nil => simp [matchesHead]
  | cons x xs ih =>
      cases v with
      | nil => simp [matchesHead]
      | cons y ys => simp [matchesHead, ih, List.cons_prefix_cons]

theorem occurs_map_some : occurs (u.map some) line = true ↔ u <:+: line := by
  rw [occurs_iff, List.infix_iff_prefix_suffix]
  simp only [matchesHead_map_some]
  exact exists_congr fun t => and_comm

/-- A text begins with itself, read as a pattern. -/
theorem matchesHead_basic (u later : List Char) : matchesHead (basic u) (u ++ later) = true := by
  induction u with
  | nil => rfl
  | cons c u ih =>
      have hc : (if c = '.' then none else some c : Option Char).all (· == c) = true := by
        split <;> simp
      have hcons : matchesHead (basic (c :: u)) (c :: u ++ later) =
          ((if c = '.' then none else some c : Option Char).all (· == c) &&
            matchesHead (basic u) (u ++ later)) := rfl
      rw [hcons, hc, ih]
      rfl

theorem basic_of_not_mem (hu : '.' ∉ u) : basic u = u.map some := by
  apply List.map_congr_left
  intro x hx
  have hxdot : x ≠ '.' := by
    rintro rfl
    exact hu hx
  rw [if_neg hxdot]

/-- A text without the separator ends behind the separator. -/
theorem suffix_append_cons_iff {sep : Char} {x : List Char} (hu : sep ∉ u) :
    u <:+ x ++ sep :: v ↔ u <:+ v := by
  constructor
  · intro h
    have hsuffix : u <:+ sep :: v := by
      rcases List.suffix_or_suffix_of_suffix h (List.suffix_append x (sep :: v)) with h | h
      · exact h
      · exact absurd (h.subset List.mem_cons_self) hu
    rcases List.suffix_cons_iff.1 hsuffix with h | h
    · exact absurd (by rw [h]; simp) hu
    · exact h
  · exact fun h => (h.trans (List.suffix_cons sep v)).trans (List.suffix_append x _)

/-- A text without the separator is found in front of it or behind it. -/
theorem infix_append_cons_iff {sep : Char} {x : List Char} (hu : sep ∉ u) :
    u <:+: x ++ sep :: v ↔ u <:+: x ∨ u <:+: v := by
  constructor
  · rintro ⟨a, b, h⟩
    rcases List.append_eq_append_iff.1 h with ⟨w, hx, -⟩ | ⟨w, hw, hrest⟩
    · exact .inl ⟨a, w, hx.symm⟩
    · cases w with
      | nil => exact .inl ⟨a, [], by simpa using hw⟩
      | cons y w =>
          injection hrest with hy hrest
          subst hy
          -- the text ends behind the separator
          have hsuffix := (suffix_append_cons_iff hu).1 ⟨a, hw⟩
          exact .inr (hsuffix.isInfix.trans ⟨[], b, by simp [hrest]⟩)
  · rintro (h | h)
    · exact h.trans ⟨[], sep :: v, rfl⟩
    · exact h.trans ⟨x ++ [sep], [], by simp⟩

/-- A text without the separator that has the separator behind it ends the first field, or
is found behind this field. -/
theorem infix_field_iff {sep : Char} {x rest : List Char} (hu : sep ∉ u) (hx : sep ∉ x) :
    u ++ [sep] <:+: x ++ sep :: rest ↔ u <:+ x ∨ u ++ [sep] <:+: rest := by
  constructor
  · rintro ⟨a, b, h⟩
    have hsplit : (a ++ u) ++ sep :: b = x ++ sep :: rest := by simpa using h
    rcases List.append_eq_append_iff.1 hsplit with ⟨w, hw, hrest⟩ | ⟨w, hw, hrest⟩
    · -- the separator found is the one behind `x`, or lies in `x`
      cases w with
      | nil => exact .inl ⟨a, by simpa using hw.symm⟩
      | cons y w =>
          injection hrest with hy
          exact absurd (by rw [hw, hy]; simp) hx
    · cases w with
      | nil => exact .inl ⟨a, by simpa using hw⟩
      | cons y w =>
          injection hrest with hy hrest
          subst hy
          obtain ⟨v, rfl⟩ := (suffix_append_cons_iff hu).1 ⟨a, hw⟩
          exact .inr ⟨v, b, by rw [hrest]; simp⟩
  · rintro (⟨v, rfl⟩ | ⟨a, b, h⟩)
    · exact ⟨v, rest, by simp⟩
    · exact ⟨x ++ sep :: a, b, by rw [← h]; simp⟩

end Patterns

/-! ## Replacing what follows a text -/

/-- The line up to the end of the first occurrence of the text, and what is behind it. -/
def cutBehind (u : List Char) : List Char → Option (List Char × List Char)
  | [] => none
  | x :: xs =>
      if u.isPrefixOf (x :: xs) then some (u, (x :: xs).drop u.length)
      else (cutBehind u xs).map fun r => (x :: r.1, r.2)

/-- `s:\(u\)[^stop]*:\1new:` on a line. -/
def replaceField (u : List Char) (stop : Char) (new line : List Char) : List Char :=
  match cutBehind u line with
  | none => line
  | some (front, behind) => front ++ new ++ behind.dropWhile (· ≠ stop)

section Replace

variable {u v : List Char}

theorem cutBehind_eq {line : List Char} {r : List Char × List Char} (h : cutBehind u line = some r) :
    r.1 ++ r.2 = line := by
  induction line generalizing r with
  | nil => cases h
  | cons x xs ih =>
      rw [cutBehind] at h
      split at h
      · rename_i hbegin
        obtain ⟨v, hv⟩ := List.isPrefixOf_iff_prefix.1 hbegin
        cases h
        rw [← hv, List.drop_left]
      · obtain ⟨q, hq, rfl⟩ := Option.map_eq_some_iff.1 h
        rw [List.cons_append, ih hq]

/-- A character of the new line is one of the line or of the new value. -/
theorem mem_replaceField {stop c : Char} {new line : List Char}
    (h : c ∈ replaceField u stop new line) : c ∈ line ∨ c ∈ new := by
  rw [replaceField] at h
  split at h
  · exact .inl h
  · rename_i front behind hcut
    rw [← cutBehind_eq hcut]
    simp only [List.mem_append] at h ⊢
    rcases h with (hfront | hnew) | hbehind
    · exact .inl (.inl hfront)
    · exact .inr hnew
    · exact .inl (.inr ((List.dropWhile_suffix _).subset hbehind))

end Replace

end Vzgot.Sed
