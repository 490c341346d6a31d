import Vzgot.Library.Buffer
import Vzgot.Library.While

/-!
# Messages sent to syslog

`log_valert` (`lib/dbglog.c`) formats a message into an array of 1000 characters. In the
foreground it prints the array on the standard error; in the background it hands it to
`syslog` in pieces of at most 140 characters, the first one behind the level. The loop
keeps a pointer into the array and the number of characters that are left (`Cutting`).

`Cutting.Cuts` is what the loop keeps: the pieces already sent and the string at the
pointer make up the message.
-/

set_option autoImplicit false

namespace Vzgot.Log

open Vzgot.Stdio Vzgot.Buffer While

/-- `STRMAX` -/
def strMax : Nat := 1000

/-- `DEBMAX` -/
def debMax : Nat := 140

/-- `strloc` -/
abbrev Strloc := CharArray strMax

/-- `strloc` behind the `memset`. -/
def cleared : Strloc := ⟨List.replicate strMax '\x00', List.length_replicate⟩

/-- `lvl`, an array of 10 characters. -/
def lvlText (dlevel : Int) : List Char :=
  let digits := printInt dlevel
  ("(dl=".toList ++ List.replicate (2 - digits.length) '0' ++ digits ++ ") ".toList).take 9

/-- `strloc` behind the `vsnprintf`, which prints `formatted`. -/
def strloc (formatted : List Char) : Option Strloc :=
  cleared.store 0 (formatted.take (strMax - 2) ++ ['\x00'])

/-- What a call of `syslog` prints: `lvl`, and characters of the message. -/
structure Piece where
  lvl : List Char
  text : List Char
  deriving DecidableEq

/-- What `log_valert` writes. -/
inductive Output where
  | stderr (line : List Char)
  | syslog (p : Piece)
  deriving DecidableEq

/-- Variables of the loop, and the calls of `syslog` so far. -/
structure Cutting where
  lvl : List Char
  ptr : Nat
  taille : Int
  sent : List Piece

/-- The body of the loop. -/
def Cutting.body (b : Strloc) (s : Cutting) : Cutting where
  lvl := []
  ptr := s.ptr + debMax
  taille := s.taille - debMax
  sent := s.sent ++ [⟨s.lvl, (b.text s.ptr).take debMax⟩]

/-- A turn of the loop. -/
def Cutting.turn (b : Strloc) (s : Cutting) : Turn Cutting :=
  if debMax < s.taille then .again (s.body b) else .leave s

/-- The background branch: the loop, and what is behind the last turn. -/
def background (fuel : Nat) (lvl : List Char) (b : Strloc) : Option (List Piece) :=
  (b.strlen 0).bind fun taille =>
    (whileLoop (Cutting.turn b) fuel ⟨lvl, 0, taille, []⟩).bind fun s =>
      (b.strlen s.ptr).map fun rest =>
        s.sent ++ if 0 < rest then [⟨s.lvl, b.text s.ptr⟩] else []

/-- `log_valert`; `clock` is the date and the time. -/
def logValert (fuel : Nat) (foreground verbose : Bool) (clock : List Char) (dlevel : Int)
    (formatted : List Char) : Option (List Output) :=
  (strloc formatted).bind fun b =>
    if foreground then
      let line := lvlText dlevel ++ b.text 0 ++ ['\n']
      some [.stderr (if verbose then line else clock ++ [' '] ++ line)]
    else (background fuel (lvlText dlevel) b).map (List.map .syslog)

theorem lvlText_ne_nil (dlevel : Int) : lvlText dlevel ≠ [] := by
  intro h
  cases h

/-! ## The array -/

/-- A NUL behind the characters ends a string, if there is none among them. -/
theorem cstr_append_nul (s rest : List Char) : cstr (s ++ '\x00' :: rest) = cstr s := by
  induction s with
  | nil => rfl
  | cons c s ih =>
      by_cases hc : c = '\x00'
      · simp [cstr, hc]
      · have hkeep : ∀ t, cstr (c :: t) = c :: cstr t := fun t =>
          List.takeWhile_cons_of_pos (by simp [hc])
        rw [List.cons_append, hkeep, hkeep, ih]

/-- The array holds the message, cut to 998 characters. -/
theorem strloc_holds (formatted : List Char) :
    ∃ b, strloc formatted = some b ∧ b.Holds [] ((cstr formatted).take (strMax - 2)) := by
  have hroom : (formatted.take (strMax - 2)).length < strMax := by
    rw [List.length_take]
    exact lt_of_le_of_lt (Nat.min_le_left _ _) (by decide)
  obtain ⟨b, hstore, hholds⟩ := CharArray.exists_store_string cleared hroom
  refine ⟨b, hstore, ?_⟩
  have htext : b.text 0 = (cstr formatted).take (strMax - 2) := by
    obtain ⟨rest, hrest⟩ := hholds
    rw [CharArray.text, List.drop_zero, hrest, List.nil_append, cstr_append_nul, cstr, cstr,
      List.take_takeWhile]
  have hheld := (CharArray.Holds.ended hholds).holds
  rwa [List.length_nil, List.take_zero, htext] at hheld

theorem nul_not_mem_cut (formatted : List Char) (n : Nat) : '\x00' ∉ (cstr formatted).take n :=
  fun h => nul_not_mem_cstr formatted (List.mem_of_mem_take h)

/-! ## The loop -/

/-- What the loop keeps, for the level `lvl` and the message `text`. -/
structure Cutting.Cuts (lvl text : List Char) (s : Cutting) : Prop where
  inside : s.ptr ≤ text.length
  taille : s.taille = (text.drop s.ptr).length
  texts : s.sent.flatMap Piece.text ++ text.drop s.ptr = text
  sizes : ∀ p ∈ s.sent, 0 < p.text.length ∧ p.text.length ≤ debMax
  levels : s.sent.map Piece.lvl ++ [s.lvl] = lvl :: List.replicate s.sent.length []

section Loop

variable {b : Strloc} {lvl text : List Char} {s : Cutting}

theorem cuts_start (lvl text : List Char) : Cutting.Cuts lvl text ⟨lvl, 0, text.length, []⟩ where
  inside := Nat.zero_le _
  taille := rfl
  texts := rfl
  sizes := fun _ hp => absurd hp List.not_mem_nil
  levels := rfl

/-- The string at a place inside of the message. -/
theorem text_at (hb : b.Holds [] text) (htext : '\x00' ∉ text) {i : Nat} (hi : i ≤ text.length) :
    b.strlen i = some (text.drop i).length ∧ b.text i = text.drop i := by
  have hshift := CharArray.Holds.shift hb i
  have hplace : ([] ++ text.take i).length = i := by
    rw [List.nil_append, List.length_take, Nat.min_eq_left hi]
  have hdrop : '\x00' ∉ text.drop i := fun h => htext (List.mem_of_mem_drop h)
  have hlen := CharArray.Holds.strlen hshift hdrop
  have hstring := CharArray.Holds.text hshift hdrop
  rw [hplace] at hlen hstring
  exact ⟨hlen, hstring⟩

/-- A turn of the loop sends one full piece. -/
theorem cuts_body (hb : b.Holds [] text) (htext : '\x00' ∉ text) (h : s.Cuts lvl text)
    (hmore : debMax < s.taille) : (s.body b).Cuts lvl text := by
  have hleft : debMax < (text.drop s.ptr).length := by
    have htaille := h.taille
    omega
  have hlen := List.length_drop (i := s.ptr) (l := text)
  have hpiece : (b.text s.ptr).take debMax = (text.drop s.ptr).take debMax := by
    rw [(text_at hb htext h.inside).2]
  have hrest : text.drop (s.ptr + debMax) = (text.drop s.ptr).drop debMax :=
    (List.drop_drop).symm
  constructor
  · show s.ptr + debMax ≤ text.length
    omega
  · show s.taille - debMax = ((text.drop (s.ptr + debMax)).length : Int)
    rw [h.taille, hrest, List.length_drop (i := debMax)]
    omega
  · show (s.sent ++ [_]).flatMap Piece.text ++ text.drop (s.ptr + debMax) = text
    rw [List.flatMap_append, List.flatMap_singleton, hpiece, hrest, List.append_assoc,
      List.take_append_drop]
    exact h.texts
  · intro p hp
    rcases List.mem_append.1 hp with hp | hp
    · exact h.sizes p hp
    · rw [List.mem_singleton.1 hp]
      show 0 < ((b.text s.ptr).take debMax).length ∧ ((b.text s.ptr).take debMax).length ≤ debMax
      rw [hpiece, List.length_take, Nat.min_eq_left (Nat.le_of_lt hleft)]
      exact ⟨by decide, le_rfl⟩
  · show (s.sent ++ [_]).map Piece.lvl ++ [[]] = lvl :: List.replicate (s.sent ++ [_]).length []
    rw [List.map_append, List.map_singleton, List.length_append, List.length_singleton,
      List.replicate_succ', ← List.cons_append, ← h.levels]

/-- The turns keep `Cuts` and make the length smaller. -/
theorem cuts_again (hb : b.Holds [] text) (htext : '\x00' ∉ text) {t : Cutting}
    (h : s.Cuts lvl text) (hturn : s.turn b = .again t) :
    t.Cuts lvl text ∧ t.taille.toNat < s.taille.toNat := by
  unfold Cutting.turn at hturn
  split at hturn
  · rename_i hmore
    cases hturn
    refine ⟨cuts_body hb htext h hmore, ?_⟩
    show (s.taille - debMax).toNat < s.taille.toNat
    simp only [debMax] at hmore ⊢
    omega
  · cases hturn

/-- The loop ends at most 140 characters before the end of the message. -/
theorem turn_ends (hb : b.Holds [] text) (htext : '\x00' ∉ text) (h : s.Cuts lvl text) :
    ∃ t, Ends (Cutting.turn b) s t ∧ t.Cuts lvl text ∧ t.taille ≤ debMax := by
  obtain ⟨t, hends⟩ := endsIn_of_measure (fun s : Cutting => s.taille.toNat)
    (fun _ _ hs hturn => cuts_again hb htext hs hturn) h
  refine ⟨t, ⟨_, hends⟩, ?_⟩
  refine @Ends.behind _ _ _ _ (Cutting.Cuts lvl text)
    (fun t => t.Cuts lvl text ∧ t.taille ≤ debMax) ?_ ?_ h ⟨_, hends⟩
  · exact fun _ _ hs hturn => (cuts_again hb htext hs hturn).1
  · intro s t hs hturn
    unfold Cutting.turn at hturn
    split at hturn
    · cases hturn
    · rename_i hless
      cases hturn
      exact ⟨hs, Int.not_lt.1 hless⟩

/-- The pieces of the message `text` behind the level `lvl`. -/
structure Sent (lvl text : List Char) (pieces : List Piece) : Prop where
  texts : pieces.flatMap Piece.text = text
  sizes : ∀ p ∈ pieces, 0 < p.text.length ∧ p.text.length ≤ debMax
  levels : pieces.map Piece.lvl = (lvl :: List.replicate pieces.length []).take pieces.length

/-- What is left behind the last turn is sent, unless it is empty. -/
theorem sent_rest (hb : b.Holds [] text) (htext : '\x00' ∉ text) (h : s.Cuts lvl text)
    (hend : s.taille ≤ debMax) :
    ∃ rest, b.strlen s.ptr = some rest ∧
      Sent lvl text (s.sent ++ if 0 < rest then [⟨s.lvl, b.text s.ptr⟩] else []) := by
  obtain ⟨hlen, hstring⟩ := text_at hb htext h.inside
  have hcount : (s.sent.map Piece.lvl).length = s.sent.length := List.length_map _
  have hlevels : s.sent.map Piece.lvl =
      (lvl :: List.replicate s.sent.length []).take s.sent.length := by
    rw [← h.levels, ← hcount, List.take_left]
  refine ⟨_, hlen, ?_⟩
  by_cases hrest : 0 < (text.drop s.ptr).length
  · rw [if_pos hrest, hstring]
    constructor
    · rw [List.flatMap_append, List.flatMap_singleton]
      exact h.texts
    · intro p hp
      rcases List.mem_append.1 hp with hp | hp
      · exact h.sizes p hp
      · rw [List.mem_singleton.1 hp]
        have htaille := h.taille
        exact ⟨hrest, by show (text.drop s.ptr).length ≤ debMax; omega⟩
    · rw [List.map_append, List.map_singleton, h.levels, List.length_append, List.length_singleton,
        List.take_succ_cons, List.take_replicate, Nat.min_eq_left (Nat.le_succ _)]
  · have hnil : text.drop s.ptr = [] := List.eq_nil_of_length_eq_zero (by omega)
    rw [if_neg hrest, List.append_nil]
    refine ⟨?_, h.sizes, hlevels⟩
    have htexts := h.texts
    rwa [hnil, List.append_nil] at htexts

end Loop

/-- The background branch sends the message that the array holds. -/
theorem background_sent {b : Strloc} {text : List Char} (hb : b.Holds [] text)
    (htext : '\x00' ∉ text) (lvl : List Char) :
    ∃ turns pieces, Sent lvl text pieces ∧
      ∀ fuel, turns ≤ fuel → background fuel lvl b = some pieces := by
  obtain ⟨hlen, -⟩ := text_at hb htext (Nat.zero_le _)
  rw [List.drop_zero] at hlen
  obtain ⟨s, ⟨turns, hends⟩, hcuts, hless⟩ := turn_ends hb htext (cuts_start lvl text)
  obtain ⟨rest, hrest, hsent⟩ := sent_rest hb htext hcuts hless
  refine ⟨turns, _, hsent, fun fuel hle => ?_⟩
  rw [background, hlen, Option.bind_some, hends fuel hle, Option.bind_some, hrest, Option.map_some]

/-- In the background the pieces handed to `syslog` are, one behind the other, the first 998
characters of the message. Each has between 1 and 140 characters, the level stands in front
of the first one only, an empty message has no piece, and the loop ends. -/
theorem logValert_pieces (verbose : Bool) (clock : List Char) (dlevel : Int)
    (formatted : List Char) :
    ∃ (turns : Nat) (pieces : List Piece),
      (∀ fuel, turns ≤ fuel →
        logValert fuel false verbose clock dlevel formatted = some (pieces.map .syslog)) ∧
      pieces.flatMap Piece.text = (cstr formatted).take 998 ∧
      (∀ p ∈ pieces, 1 ≤ p.text.length ∧ p.text.length ≤ 140) ∧
      pieces.map Piece.lvl =
        (lvlText dlevel :: List.replicate pieces.length []).take pieces.length ∧
      lvlText dlevel ≠ [] ∧ (cstr formatted = [] → pieces = []) := by
  obtain ⟨b, hstrloc, hholds⟩ := strloc_holds formatted
  obtain ⟨turns, pieces, hsent, hpieces⟩ :=
    background_sent hholds (nul_not_mem_cut formatted _) (lvlText dlevel)
  refine ⟨turns, pieces, fun fuel hfuel => ?_, hsent.texts, hsent.sizes, hsent.levels,
    lvlText_ne_nil dlevel, fun hempty => ?_⟩
  · rw [logValert, hstrloc, Option.bind_some, if_neg Bool.false_ne_true, hpieces fuel hfuel,
      Option.map_some]
  · -- a piece would have a character of the message
    cases pieces with
    | nil => rfl
    | cons p pieces =>
        have htexts := hsent.texts
        rw [hempty, List.take_nil, List.flatMap_cons, List.append_eq_nil_iff] at htexts
        have hpos := (hsent.sizes p List.mem_cons_self).1
        rw [htexts.1] at hpos
        exact absurd hpos (Nat.lt_irrefl 0)

end Vzgot.Log
