import Mathlib.Data.List.Infix
import Vzgot.Library.Stdio

/-!
# Reading a file in pieces

A loop over `fgets` sees a line that is too long for its buffer as several pieces.
`read keep n` reads pieces of at most `n` bytes as long as `keep` accepts them; every
piece is noted with the number of bytes that were left when it was read. A block is a
list of lines with an empty line behind them. A reader that does not keep the empty
line never leaves a block (`read_append`), and reads it to its end exactly when it
keeps every piece of every line (`rest_read_blockText_iff`). A reader that keeps
everything reads the pieces of the lines one after the other (`filterMap_piecesOf_intercalate`).
-/

set_option autoImplicit false

namespace Vzgot.Pieces

open Vzgot.Stdio

/-- What a loop over `fgets` has read: the pieces it kept with their places, the piece
that ended the loop, if it was not the end of the file, and the bytes left. -/
structure Reading where
  pieces : List (Nat × List Char)
  last : Option (List Char)
  rest : List Char

/-- One more piece in front. -/
def Reading.push (p : Nat × List Char) (r : Reading) : Reading := { r with pieces := p :: r.pieces }

/-- The same reading with more bytes behind. -/
def Reading.extend (later : List Char) (r : Reading) : Reading :=
  ⟨r.pieces.map fun p => (p.1 + later.length, p.2), r.last, r.rest ++ later⟩

/-- The loop, with a bound on the number of turns. -/
def readLoop (keep : List Char → Bool) (n : Nat) : Nat → List Char → Reading
  | 0, bytes => ⟨[], none, bytes⟩
  | fuel + 1, bytes =>
      match fgets (n + 1) bytes with
      | none => ⟨[], none, []⟩
      | some piece =>
          if keep piece then
            (readLoop keep n fuel (bytes.drop piece.length)).push (bytes.length, piece)
          else ⟨[], some piece, bytes.drop piece.length⟩

/-- Pieces of at most `n` bytes as long as they are kept. -/
def read (keep : List Char → Bool) (n : Nat) (bytes : List Char) : Reading :=
  readLoop keep n bytes.length bytes

/-- Lines with an empty line behind them. -/
def blockText (us : List (List Char)) : List Char := us.flatMap (· ++ ['\n']) ++ ['\n']

/-- Every piece of the line is kept. -/
def Passes (keep : List Char → Bool) (n : Nat) (u : List Char) : Prop :=
  ∀ i, n * i ≤ u.length → keep (((u ++ ['\n']).drop (n * i)).take n) = true

/-! ## One piece -/

section Pieces

variable {n : Nat}

theorem takeLine_ne_nil (hn : 0 < n) {bytes : List Char} (hb : bytes ≠ []) :
    takeLine n bytes ≠ [] := by
  obtain ⟨m, rfl⟩ : ∃ m, n = m + 1 := ⟨n - 1, by omega⟩
  cases bytes with
  | nil => exact absurd rfl hb
  | cons c cs =>
      rw [takeLine]
      split <;> simp

theorem takeLine_append_drop (n : Nat) (bytes : List Char) :
    takeLine n bytes ++ bytes.drop (takeLine n bytes).length = bytes := by
  induction n generalizing bytes with
  | zero => simp [takeLine]
  | succ n ih =>
      cases bytes with
      | nil => simp [takeLine]
      | cons c cs =>
          rw [takeLine]
          split
          · simp
          · simp [ih cs]

/-- A newline is the last byte of its piece. -/
theorem takeLine_newline {n : Nat} {bytes s r : List Char}
    (h : takeLine n bytes = s ++ '\n' :: r) : r = [] := by
  induction n generalizing bytes s with
  | zero => simp [takeLine] at h
  | succ n ih =>
      cases bytes with
      | nil => simp [takeLine] at h
      | cons c cs =>
          rw [takeLine] at h
          split at h
          · cases s with
            | nil => exact (List.cons.inj h).2.symm
            | cons d s => simp at h
          · rename_i hc
            cases s with
            | nil => exact absurd (List.cons.inj h).1 hc
            | cons d s => exact ih (List.cons.inj h).2

/-- Up to a newline, the bytes behind do not matter. -/
theorem takeLine_append {t : List Char} (ht : '\n' ∈ t) (n : Nat) (later : List Char) :
    takeLine n (t ++ later) = takeLine n t := by
  induction n generalizing t with
  | zero => rfl
  | succ n ih =>
      cases t with
      | nil => cases ht
      | cons c cs =>
          rw [List.cons_append, takeLine, takeLine]
          split
          · rfl
          · rename_i hc
            have hcs : '\n' ∈ cs := (List.mem_cons.mp ht).resolve_left fun h => hc h.symm
            rw [ih hcs]

theorem takeLine_line {u : List Char} (hu : '\n' ∉ u) (n : Nat) (t : List Char) :
    takeLine n (u ++ '\n' :: t) = (u ++ ['\n']).take n := by
  induction n generalizing u with
  | zero => simp [takeLine]
  | succ n ih =>
      cases u with
      | nil => simp [takeLine]
      | cons c cs =>
          have hc : c ≠ '\n' := fun h => hu (by simp [h])
          have hcs : '\n' ∉ cs := fun h => hu (List.mem_cons_of_mem c h)
          simp [takeLine, hc, ih hcs]

theorem length_drop_takeLine_lt (hn : 0 < n) {bytes : List Char} (hb : bytes ≠ []) :
    (bytes.drop (takeLine n bytes).length).length < bytes.length := by
  have hpos := List.length_pos_iff.mpr (takeLine_ne_nil hn hb)
  have hlen := List.length_pos_iff.mpr hb
  rw [List.length_drop]
  omega

/-! ## The loop -/

variable {keep : List Char → Bool}

theorem readLoop_congr (hn : 0 < n) {fuel fuel' : Nat} {bytes : List Char}
    (hf : bytes.length ≤ fuel) (hf' : bytes.length ≤ fuel') :
    readLoop keep n fuel bytes = readLoop keep n fuel' bytes := by
  -- a piece is not empty, so that both sides have fuel for what is behind it
  induction fuel generalizing fuel' bytes with
  | zero =>
      obtain rfl : bytes = [] := List.length_eq_zero_iff.mp (by omega)
      cases fuel' with
      | zero => rfl
      | succ fuel' => rfl
  | succ fuel ih =>
      cases fuel' with
      | zero =>
          obtain rfl : bytes = [] := List.length_eq_zero_iff.mp (by omega)
          rfl
      | succ fuel' =>
          by_cases hb : bytes = []
          · subst hb
            rfl
          · have hlt := length_drop_takeLine_lt hn hb
            have hrest : readLoop keep n fuel (bytes.drop (takeLine n bytes).length) =
                readLoop keep n fuel' (bytes.drop (takeLine n bytes).length) := by
              apply ih
              · omega
              · omega
            simp only [readLoop, fgets, hb, if_false, Nat.add_sub_cancel]
            rw [hrest]

/-- One turn of the loop. -/
theorem read_eq (hn : 0 < n) {bytes : List Char} (hb : bytes ≠ []) :
    read keep n bytes =
      if keep (takeLine n bytes) then
        (read keep n (bytes.drop (takeLine n bytes).length)).push
          (bytes.length, takeLine n bytes)
      else ⟨[], some (takeLine n bytes), bytes.drop (takeLine n bytes).length⟩ := by
  have hlt := length_drop_takeLine_lt hn hb
  obtain ⟨fuel, hfuel⟩ : ∃ fuel, bytes.length = fuel + 1 := ⟨bytes.length - 1, by omega⟩
  rw [read, hfuel, readLoop]
  simp only [fgets, hb, if_false, Nat.add_sub_cancel]
  rw [read, readLoop_congr hn (by omega) le_rfl, hfuel]

end Pieces

/-- What is kept is a piece that the loop has read. -/
theorem mem_pieces {n : Nat} {keep : List Char → Bool} {bytes : List Char} {p : Nat × List Char}
    (hp : p ∈ (read keep n bytes).pieces) :
    keep p.2 = true ∧ ∃ bytes', p.2 = takeLine n bytes' := by
  rw [read] at hp
  generalize bytes.length = fuel at hp
  induction fuel generalizing bytes with
  | zero => cases hp
  | succ fuel ih =>
      by_cases hb : bytes = []
      · simp [readLoop, fgets, hb] at hp
      · simp only [readLoop, fgets, hb, if_false, Nat.add_sub_cancel] at hp
        by_cases hkeep : keep (takeLine n bytes) = true
        · rw [if_pos hkeep] at hp
          rcases List.mem_cons.mp hp with rfl | hp
          · exact ⟨hkeep, bytes, rfl⟩
          · exact ih hp
        · rw [if_neg hkeep] at hp
          cases hp

/-! ## Blocks -/

/-- A part of a block that reaches to its end. -/
def Closing (t : List Char) : Prop := t = ['\n'] ∨ ['\n', '\n'] <:+ t

section Blocks

variable {n : Nat} {keep : List Char → Bool} {t : List Char}

theorem Closing.newline_mem (ht : Closing t) : '\n' ∈ t := by
  rcases ht with rfl | ht
  · exact List.mem_singleton_self _
  · exact ht.subset (by simp)

theorem Closing.ne_nil (ht : Closing t) : t ≠ [] := List.ne_nil_of_mem ht.newline_mem

theorem Closing.suffix {s : List Char} (ht : Closing t) (hs : s <:+ t) (hne : s ≠ []) :
    Closing s := by
  rcases ht with rfl | ht
  · rcases List.suffix_cons_iff.mp hs with rfl | hs
    · exact Or.inl rfl
    · exact absurd (List.suffix_nil.mp hs) hne
  · rcases List.suffix_or_suffix_of_suffix hs ht with hsub | hsub
    · -- a suffix of the two newlines
      rcases List.suffix_cons_iff.mp hsub with rfl | hsub
      · exact Or.inr List.suffix_rfl
      · rcases List.suffix_cons_iff.mp hsub with rfl | hsub
        · exact Or.inl rfl
        · exact absurd (List.suffix_nil.mp hsub) hne
    · exact Or.inr hsub

theorem closing_blockText (us : List (List Char)) : Closing (blockText us) := by
  rcases List.eq_nil_or_concat us with rfl | ⟨us, u, rfl⟩
  · exact Or.inl rfl
  · refine Or.inr ⟨us.flatMap (· ++ ['\n']) ++ u, ?_⟩
    simp [blockText]

/-- A piece that is not the empty line leaves something of the block. -/
theorem Closing.drop (ht : Closing t) (hpiece : takeLine n t ≠ ['\n']) :
    Closing (t.drop (takeLine n t).length) := by
  refine ht.suffix (List.drop_suffix _ t) ?_
  intro hnil
  have hall := takeLine_append_drop n t
  rw [hnil, List.append_nil] at hall
  rcases ht with rfl | ⟨s, hs⟩
  · exact hpiece hall
  · have hsplit : takeLine n t = s ++ '\n' :: ['\n'] := by
      rw [hall, ← hs]
    exact List.cons_ne_nil _ _ (takeLine_newline hsplit)

/-- A line of at least `n` bytes: its first piece, and a shorter line. -/
theorem passes_long {u : List Char} (hlong : n ≤ u.length) :
    Passes keep n u ↔ keep (u.take n) = true ∧ Passes keep n (u.drop n) := by
  -- piece `i + 1` of the line is piece `i` of what is behind its first
  have hshift : ∀ i, ((u ++ ['\n']).drop (n * (i + 1))) = ((u.drop n ++ ['\n']).drop (n * i)) := by
    intro i
    rw [← List.drop_append_of_le_length hlong, List.drop_drop, Nat.mul_succ, Nat.add_comm]
  constructor
  · intro h
    refine ⟨?_, ?_⟩
    · have h0 := h 0 (by omega)
      rwa [Nat.mul_zero, List.drop_zero, List.take_append_of_le_length hlong] at h0
    · intro i hi
      rw [← hshift]
      rw [List.length_drop] at hi
      exact h (i + 1) (by rw [Nat.mul_succ]; omega)
  · rintro ⟨hfirst, h⟩ i hi
    cases i with
    | zero => rwa [Nat.mul_zero, List.drop_zero, List.take_append_of_le_length hlong]
    | succ i =>
        rw [hshift]
        refine h i ?_
        rw [List.length_drop]
        rw [Nat.mul_succ] at hi
        omega

theorem passes_short {u : List Char} (hshort : u.length < n) :
    Passes keep n u ↔ keep (u ++ ['\n']) = true := by
  have htake : (u ++ ['\n']).take n = u ++ ['\n'] :=
    List.take_of_length_le (by rw [List.length_append, List.length_singleton]; omega)
  constructor
  · intro h
    have h0 := h 0 (by omega)
    rwa [Nat.mul_zero, List.drop_zero, htake] at h0
  · intro h i hi
    cases i with
    | zero => rwa [Nat.mul_zero, List.drop_zero, htake]
    | succ i =>
        rw [Nat.mul_succ] at hi
        omega

variable (hn : 0 < n) (hempty : keep ['\n'] = false)
include hn hempty

/-- Where a reader of a block stops. -/
theorem rest_read (ht : Closing t) :
    ((read keep n t).rest = [] ∨ Closing (read keep n t).rest) ∧
      (read keep n t).rest.length < t.length ∧ ∀ p ∈ (read keep n t).pieces, 0 < p.1 ∧ p.1 ≤ t.length := by
  -- on the length: what is behind a piece is shorter, and `Closing` again if the piece is kept
  induction hlen : t.length using Nat.strong_induction_on generalizing t with
  | _ k ih =>
      subst hlen
      have hlt := length_drop_takeLine_lt hn ht.ne_nil
      rw [read_eq hn ht.ne_nil]
      by_cases hkeep : keep (takeLine n t) = true
      · rw [if_pos hkeep]
        have hpiece : takeLine n t ≠ ['\n'] := by
          intro h
          rw [h, hempty] at hkeep
          cases hkeep
        obtain ⟨hrest, hless, hpos⟩ := ih _ hlt (ht.drop hpiece) rfl
        refine ⟨hrest, hless.trans hlt, ?_⟩
        intro p hp
        rcases List.mem_cons.mp hp with rfl | hp
        · exact ⟨List.length_pos_iff.mpr ht.ne_nil, le_rfl⟩
        · exact ⟨(hpos p hp).1, (hpos p hp).2.trans hlt.le⟩
      · rw [if_neg hkeep]
        refine ⟨?_, hlt, by simp⟩
        by_cases hnil : t.drop (takeLine n t).length = []
        · exact Or.inl hnil
        · exact Or.inr (ht.suffix (List.drop_suffix _ t) hnil)

/-- A reader of a block does not see what is behind it. -/
theorem read_append (ht : Closing t) (later : List Char) :
    read keep n (t ++ later) = (read keep n t).extend later := by
  -- on the length: each piece ends inside of `t`, where its newline is
  induction hlen : t.length using Nat.strong_induction_on generalizing t with
  | _ k ih =>
      subst hlen
      have hlt := length_drop_takeLine_lt hn ht.ne_nil
      have hle : (takeLine n t).length ≤ t.length := by
        rw [List.length_drop] at hlt
        have h := congrArg List.length (takeLine_append_drop n t)
        rw [List.length_append] at h
        omega
      rw [read_eq hn ht.ne_nil, read_eq hn (List.append_ne_nil_of_left_ne_nil ht.ne_nil later),
        takeLine_append ht.newline_mem, List.drop_append_of_le_length hle]
      by_cases hkeep : keep (takeLine n t) = true
      · rw [if_pos hkeep, if_pos hkeep]
        have hpiece : takeLine n t ≠ ['\n'] := by
          intro h
          rw [h, hempty] at hkeep
          cases hkeep
        rw [ih _ hlt (ht.drop hpiece) rfl]
        simp [Reading.push, Reading.extend]
      · rw [if_neg hkeep, if_neg hkeep]
        rfl

omit hempty in
/-- Whether a line is kept decides whether the reading goes on behind it. -/
theorem rest_read_line {u : List Char} (hu : '\n' ∉ u) (ht : Closing t) :
    (Passes keep n u → (read keep n (u ++ '\n' :: t)).rest = (read keep n t).rest) ∧
      (¬ Passes keep n u → (read keep n (u ++ '\n' :: t)).rest ≠ []) := by
  -- on the line: its first piece is `n` bytes of it, or all of it with the newline
  induction hlen : u.length using Nat.strong_induction_on generalizing u with
  | _ k ih =>
      subst hlen
      rw [read_eq hn (List.append_ne_nil_of_right_ne_nil u (List.cons_ne_nil _ t)),
        takeLine_line hu]
      by_cases hlong : n ≤ u.length
      · have hpiece : (u ++ ['\n']).take n = u.take n := List.take_append_of_le_length hlong
        have hrest : (u ++ '\n' :: t).drop n = u.drop n ++ '\n' :: t :=
          List.drop_append_of_le_length hlong
        have hdrop : '\n' ∉ u.drop n := fun h => hu (List.mem_of_mem_drop h)
        rw [passes_long hlong, hpiece, List.length_take, Nat.min_eq_left hlong, hrest]
        by_cases hkeep : keep (u.take n) = true
        · simp only [hkeep, if_true, true_and]
          exact ih _ (by rw [List.length_drop]; omega) hdrop rfl
        · simp [hkeep]
      · have hpiece : (u ++ ['\n']).take n = u ++ ['\n'] :=
          List.take_of_length_le (by rw [List.length_append, List.length_singleton]; omega)
        have hrest : (u ++ '\n' :: t).drop (u ++ ['\n']).length = t := by
          rw [List.append_cons u '\n' t, List.drop_left]
        rw [passes_short (by omega), hpiece, hrest]
        by_cases hkeep : keep (u ++ ['\n']) = true
        · simp [hkeep, Reading.push]
        · simp [hkeep, ht.ne_nil]

/-- A reader reads a block to its end exactly when it keeps all of its lines. -/
theorem rest_read_blockText_iff {us : List (List Char)} (hus : ∀ u ∈ us, '\n' ∉ u) :
    (read keep n (blockText us)).rest = [] ↔ ∀ u ∈ us, Passes keep n u := by
  induction us with
  | nil =>
      have hread : read keep n (blockText []) = ⟨[], some ['\n'], []⟩ := by
        have hline : takeLine n ['\n'] = ['\n'] := by
          have h := takeLine_line (u := []) (by simp) n []
          rw [List.nil_append] at h
          rw [h, List.take_of_length_le hn]
        rw [show blockText [] = ['\n'] from rfl, read_eq hn (List.cons_ne_nil _ _), hline, hempty]
        rfl
      simp [hread]
  | cons u us ih =>
      have hrest := ih fun v hv => hus v (List.mem_cons_of_mem u hv)
      have hu := hus u List.mem_cons_self
      have htext : blockText (u :: us) = u ++ '\n' :: blockText us := by
        simp [blockText]
      obtain ⟨hpass, hstop⟩ := rest_read_line hn hu (closing_blockText us)
      rw [htext, List.forall_mem_cons]
      by_cases hline : Passes keep n u
      · rw [hpass hline, hrest]
        exact ⟨fun h => ⟨hline, h⟩, fun h => h.2⟩
      · exact ⟨fun h => absurd h (hstop hline), fun h => absurd h.1 hline⟩

end Blocks

/-! ## The pieces of a block -/

section Places

variable {n : Nat} {keep : List Char → Bool} {p : Nat × List Char} (hn : 0 < n)
include hn

/-- A piece is a piece of the first line, or was read behind it. -/
theorem mem_pieces_line {u t : List Char} (hu : '\n' ∉ u)
    (hp : p ∈ (read keep n (u ++ '\n' :: t)).pieces) :
    (∃ i, n * i ≤ u.length ∧
      p = ((u.drop (n * i) ++ '\n' :: t).length, ((u ++ ['\n']).drop (n * i)).take n)) ∨
      p ∈ (read keep n t).pieces := by
  -- on the line, as in `rest_read_line`
  induction hlen : u.length using Nat.strong_induction_on generalizing u with
  | _ k ih =>
      subst hlen
      rw [read_eq hn (List.append_ne_nil_of_right_ne_nil u (List.cons_ne_nil _ t)),
        takeLine_line hu] at hp
      have hfirst : ∃ i, n * i ≤ u.length ∧ ((u ++ '\n' :: t).length, (u ++ ['\n']).take n) =
          ((u.drop (n * i) ++ '\n' :: t).length, ((u ++ ['\n']).drop (n * i)).take n) :=
        ⟨0, Nat.zero_le _, rfl⟩
      by_cases hkeep : keep ((u ++ ['\n']).take n) = true
      · rw [if_pos hkeep] at hp
        rcases List.mem_cons.mp hp with rfl | hp
        · exact Or.inl hfirst
        · by_cases hlong : n ≤ u.length
          · have hpiece : (u ++ ['\n']).take n = u.take n := List.take_append_of_le_length hlong
            have hrest : (u ++ '\n' :: t).drop n = u.drop n ++ '\n' :: t :=
              List.drop_append_of_le_length hlong
            have hdrop : '\n' ∉ u.drop n := fun h => hu (List.mem_of_mem_drop h)
            rw [hpiece, List.length_take, Nat.min_eq_left hlong, hrest] at hp
            rcases ih _ (by rw [List.length_drop]; omega) hdrop hp rfl with ⟨i, hi, rfl⟩ | hp
            · -- piece `i` of what is behind the first piece is piece `i + 1`
              rw [List.length_drop] at hi
              have hshift : n * (i + 1) = n + n * i := by rw [Nat.mul_succ, Nat.add_comm]
              refine Or.inl ⟨i + 1, by omega, ?_⟩
              rw [hshift, List.drop_drop, ← List.drop_append_of_le_length hlong, List.drop_drop]
            · exact Or.inr hp
          · have hpiece : (u ++ ['\n']).take n = u ++ ['\n'] :=
              List.take_of_length_le (by rw [List.length_append, List.length_singleton]; omega)
            have hrest : (u ++ '\n' :: t).drop (u ++ ['\n']).length = t := by
              rw [List.append_cons u '\n' t, List.drop_left]
            rw [hpiece, hrest] at hp
            exact Or.inr hp
      · rw [if_neg hkeep] at hp
        cases hp

/-- A reader of a block keeps pieces of its lines; the place of a piece tells the line and
the number of the piece in it. -/
theorem mem_pieces_blockText (hempty : keep ['\n'] = false) {us : List (List Char)}
    (hus : ∀ u ∈ us, '\n' ∉ u) (hp : p ∈ (read keep n (blockText us)).pieces) :
    ∃ pre u post i, us = pre ++ u :: post ∧ n * i ≤ u.length ∧
      p = ((u.drop (n * i) ++ '\n' :: blockText post).length,
        ((u ++ ['\n']).drop (n * i)).take n) := by
  induction us with
  | nil =>
      have hline := takeLine_line (u := []) (by simp) n []
      rw [List.nil_append, List.take_of_length_le hn] at hline
      rw [show blockText [] = ['\n'] from rfl, read_eq hn (List.cons_ne_nil _ _), hline, hempty] at hp
      cases hp
  | cons u us ih =>
      have htext : blockText (u :: us) = u ++ '\n' :: blockText us := by simp [blockText]
      rw [htext] at hp
      rcases mem_pieces_line hn (hus u List.mem_cons_self) hp with ⟨i, hi, rfl⟩ | hp
      · exact ⟨[], u, us, i, rfl, hi, rfl⟩
      · obtain ⟨pre, v, post, i, rfl, hi, rfl⟩ := ih (fun v hv => hus v (List.mem_cons_of_mem u hv)) hp
        exact ⟨u :: pre, v, post, i, rfl, hi, rfl⟩

end Places

/-- Texts with a separator behind each of them are separated again. -/
theorem splitOn_flatMap {α : Type} [BEq α] [LawfulBEq α] {a : α} {xss : List (List α)}
    (h : ∀ xs ∈ xss, a ∉ xs) : (xss.flatMap (· ++ [a])).splitOn a = xss ++ [[]] := by
  induction xss with
  | nil => simp
  | cons xs xss ih =>
      rw [List.forall_mem_cons] at h
      rw [List.flatMap_cons, List.append_assoc, List.singleton_append,
        List.splitOn_append_cons_self_of_not_mem h.1, ih h.2, List.cons_append]

/-! ## Reading everything -/

/-- All pieces of a file. -/
def piecesOf (n : Nat) (bytes : List Char) : List (List Char) :=
  (read (fun _ => true) n bytes).pieces.map Prod.snd

/-- The pieces of a line without its newline. -/
def linePieces (n : Nat) (u : List Char) : List (List Char) :=
  (List.range (u.length / n + 1)).map fun i => (u.drop (n * i)).take n

section All

variable {n : Nat} {u : List Char}

theorem linePieces_short (hshort : u.length < n) : linePieces n u = [u] := by
  have htake : u.take n = u := List.take_of_length_le (Nat.le_of_lt hshort)
  simp [linePieces, Nat.div_eq_of_lt hshort, htake]

theorem linePieces_long (hn : 0 < n) (hlong : n ≤ u.length) :
    linePieces n u = u.take n :: linePieces n (u.drop n) := by
  have hdiv : u.length / n = (u.length - n) / n + 1 := Nat.div_eq_sub_div hn hlong
  simp only [linePieces, List.length_drop, hdiv, List.range_succ_eq_map (n := _ + 1),
    List.map_cons, List.map_map, Nat.mul_zero, List.drop_zero, List.drop_drop]
  refine congrArg _ (List.map_congr_left fun i _ => ?_)
  rw [Function.comp, Nat.succ_eq_add_one, Nat.mul_succ, Nat.add_comm]

theorem piecesOf_nil : piecesOf n [] = [] := rfl

theorem piecesOf_cons (hn : 0 < n) {bytes : List Char} (hb : bytes ≠ []) :
    piecesOf n bytes =
      takeLine n bytes :: piecesOf n (bytes.drop (takeLine n bytes).length) := by
  rw [piecesOf, read_eq hn hb, if_pos rfl]
  rfl

theorem takeLine_last {n : Nat} (hu : '\n' ∉ u) : takeLine n u = u.take n := by
  induction n generalizing u with
  | zero => simp [takeLine]
  | succ n ih =>
      cases u with
      | nil => simp [takeLine]
      | cons c cs =>
          have hc : c ≠ '\n' := fun h => hu (by simp [h])
          have hcs : '\n' ∉ cs := fun h => hu (List.mem_cons_of_mem c h)
          simp [takeLine, hc, ih hcs]

variable {β : Type} {f : List Char → Option β} (hn : 0 < n)
include hn

/-- A line that is shorter than a piece is one piece. -/
theorem piecesOf_line (hu : '\n' ∉ u) (hlen : u.length < n) (t : List Char) :
    piecesOf n (u ++ '\n' :: t) = (u ++ ['\n']) :: piecesOf n t := by
  rw [piecesOf_cons hn (List.append_ne_nil_of_right_ne_nil u (List.cons_ne_nil _ t)),
    takeLine_of_not_mem hu t hlen]
  conv_lhs => rw [List.append_cons u '\n' t, List.drop_left]

theorem piecesOf_last (hne : u ≠ []) (hu : '\n' ∉ u) (hlen : u.length ≤ n) : piecesOf n u = [u] := by
  rw [piecesOf_cons hn hne, takeLine_last hu, List.take_of_length_le hlen,
    List.drop_length, piecesOf_nil]

/-- What is read from the pieces of a line, when the newline does not matter. -/
theorem filterMap_piecesOf_line (hf : ∀ p, f (p ++ ['\n']) = f p) (hu : '\n' ∉ u)
    (t : List Char) :
    (piecesOf n (u ++ '\n' :: t)).filterMap f =
      (linePieces n u).filterMap f ++ (piecesOf n t).filterMap f := by
  -- on the line, as in `rest_read_line`
  induction hlen : u.length using Nat.strong_induction_on generalizing u with
  | _ k ih =>
      subst hlen
      rw [piecesOf_cons hn (List.append_ne_nil_of_right_ne_nil u (List.cons_ne_nil _ t)),
        takeLine_line hu]
      by_cases hlong : n ≤ u.length
      · have hpiece : (u ++ ['\n']).take n = u.take n := List.take_append_of_le_length hlong
        have hrest : (u ++ '\n' :: t).drop n = u.drop n ++ '\n' :: t :=
          List.drop_append_of_le_length hlong
        have hdrop : '\n' ∉ u.drop n := fun h => hu (List.mem_of_mem_drop h)
        rw [linePieces_long hn hlong, hpiece, List.length_take, Nat.min_eq_left hlong, hrest,
          List.filterMap_cons, List.filterMap_cons, ih _ (by rw [List.length_drop]; omega) hdrop rfl]
        cases f (u.take n) with
        | none => rfl
        | some b => rfl
      · have hpiece : (u ++ ['\n']).take n = u ++ ['\n'] :=
          List.take_of_length_le (by rw [List.length_append, List.length_singleton]; omega)
        have hrest : (u ++ '\n' :: t).drop (u ++ ['\n']).length = t := by
          rw [List.append_cons u '\n' t, List.drop_left]
        rw [linePieces_short (by omega), hpiece, hrest, List.filterMap_cons, List.filterMap_cons,
          hf]
        cases f u with
        | none => rfl
        | some b => rfl

/-- What is read from the pieces of the last line, which has no newline. -/
theorem filterMap_piecesOf_last (hnil : f [] = none) (hu : '\n' ∉ u) :
    (piecesOf n u).filterMap f = (linePieces n u).filterMap f := by
  induction hlen : u.length using Nat.strong_induction_on generalizing u with
  | _ k ih =>
      subst hlen
      by_cases hempty : u = []
      · subst hempty
        rw [piecesOf_nil, linePieces_short hn]
        simp [hnil]
      · rw [piecesOf_cons hn hempty, takeLine_last hu]
        by_cases hlong : n ≤ u.length
        · have hdrop : '\n' ∉ u.drop n := fun h => hu (List.mem_of_mem_drop h)
          have hless := List.length_pos_iff.mpr hempty
          rw [linePieces_long hn hlong, List.length_take, Nat.min_eq_left hlong,
            List.filterMap_cons, List.filterMap_cons, ih _ (by rw [List.length_drop]; omega) hdrop rfl]
        · have hpiece : u.take n = u := List.take_of_length_le (by omega)
          rw [linePieces_short (by omega), hpiece, List.drop_length, piecesOf_nil]

/-- What is read from the pieces of lines that are separated by newlines. -/
theorem filterMap_piecesOf_intercalate (hf : ∀ p, f (p ++ ['\n']) = f p) (hnil : f [] = none)
    {us : List (List Char)} (hus : ∀ u ∈ us, '\n' ∉ u) :
    (piecesOf n (['\n'].intercalate us)).filterMap f =
      us.flatMap fun u => (linePieces n u).filterMap f := by
  induction us with
  | nil => simp [piecesOf_nil]
  | cons u us ih =>
      rw [List.forall_mem_cons] at hus
      cases us with
      | nil => simp [filterMap_piecesOf_last hn hnil hus.1]
      | cons v us =>
          have htext : ['\n'].intercalate (u :: v :: us) =
              u ++ '\n' :: ['\n'].intercalate (v :: us) := by
            simp [List.intercalate_cons_cons]
          rw [htext, filterMap_piecesOf_line hn hf hus.1, ih hus.2]
          rfl

end All

end Vzgot.Pieces
