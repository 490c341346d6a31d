import Mathlib.Data.List.DropRight
import Vzgot.Config.Load

/-!
# Lines of a file

`apl_getstr` (`lib/utlapl.c`) reads a line, takes the comment and the backslashes of escaped
comment characters out of it, and is to strip its end. Here both loops run over the string
in place, as in the source; `aplGetstr_eq` says that they come to `cutComment`.

The pointer of the first loop goes one character too far behind an escaped comment
character, so a comment that begins there is not seen (`aplGetstr_comment_iff`). The second
loop begins at the closing NUL and stops at once (`stripLoop_eq`), so the lines of a file
keep their ends (`reads_lines_iff`).
-/

set_option autoImplicit false

namespace Vzgot.Getstr

open Vzgot.Stdio Vzgot.Config

/-! ## The procedure -/

/-- `strchr` from an offset of the string on; the result is an offset too. -/
def strchr (str : List Char) (ptrloc : Nat) (c : Char) : Option Nat :=
  if c ∈ str.drop ptrloc then some (ptrloc + ((str.drop ptrloc).takeWhile (· ≠ c)).length)
  else none

/-- The loop over the comment characters; every turn that goes on shortens the string. -/
def commentLoop (carcom : Char) : Nat → List Char → Nat → List Char
  | 0, str, _ => str
  | turns + 1, str, ptrloc =>
      match strchr str ptrloc carcom with
      | none => str
      | some ptrloc =>
          if ptrloc ≠ 0 ∧ str[ptrloc - 1]? = some '\\' then
            -- `memmove` pulls the comment character to `ptrloc-1`, and `ptrloc` goes on by one
            commentLoop carcom turns (str.eraseIdx (ptrloc - 1)) (ptrloc + 1)
          else str.take ptrloc

/-- The loop that is to strip the end of the line, with the counter `len`. -/
def stripLoop : Nat → Nat → List Char → List Char
  | 0, _, str => str
  | len + 1, ptrloc, str =>
      if str[ptrloc]? = some '\n' ∨ str[ptrloc]? = some '\r' then
        stripLoop len (ptrloc - 1) (str.take ptrloc)
      else str

/-- `apl_getstr`: the string, and what is left of the file; nothing at its end. -/
def aplGetstr (fichier : List Char) (taille : Nat) (carcom : Char) :
    Option (List Char × List Char) :=
  (fgets taille fichier).map fun line =>
    let str := cstr line
    let rest := fichier.drop line.length
    if carcom = '\x00' then (stripLoop str.length str.length str, rest)
    else if str.head? = some carcom then ([], rest)
    else
      let str := commentLoop carcom str.length str 0
      (stripLoop str.length str.length str, rest)

/-- The strings that calls return up to the null pointer. -/
inductive Reads (taille : Nat) (carcom : Char) : List Char → List (List Char) → Prop
  | eof {fichier : List Char} : aplGetstr fichier taille carcom = none → Reads taille carcom fichier []
  | line {fichier str rest : List Char} {strs : List (List Char)} :
      aplGetstr fichier taille carcom = some (str, rest) → Reads taille carcom rest strs →
        Reads taille carcom fichier (str :: strs)

/-! ## What a line is -/

/-- The first line of a file, with its end. -/
def firstLine (fichier : List Char) : List Char := takeLine fichier.length fichier

/-- The lines of a file, with their ends. -/
def fileLines : List Char → List (List Char)
  | [] => []
  | c :: s =>
      if c = '\n' then ['\n'] :: fileLines s
      else
        match fileLines s with
        | [] => [[c]]
        | l :: ls => (c :: l) :: ls

/-- A character of the end of a line. -/
def isEnd (c : Char) : Bool := c = '\n' || c = '\r'

/-- The string without the line ends that it ends with. -/
def stripEnds (s : List Char) : List Char := s.rdropWhile isEnd

/-- The text in front of the first comment character that has no backslash directly before
it; `prev` is the character before the text. -/
def textBefore (carcom : Char) : Option Char → List Char → List Char
  | _, [] => []
  | prev, d :: s => if d = carcom ∧ prev ≠ some '\\' then [] else d :: textBefore carcom (some d) s

/-- The text with every pair of a backslash and a comment character replaced by the comment
character. -/
def unescape (carcom : Char) : List Char → List Char
  | [] => []
  | [d] => [d]
  | d :: e :: s =>
      if d = '\\' ∧ e = carcom then e :: unescape carcom s else d :: unescape carcom (e :: s)

/-- The text of a line without its comment. -/
def lineText (carcom : Char) (line : List Char) : List Char :=
  unescape carcom (textBefore carcom none line)

/-- With CR as the comment character: what the text of a line comes to is line ends only. -/
def leavesEnds : List Char → Bool
  | [] => true
  | '\r' :: _ => true
  | '\n' :: s => leavesEnds s
  | ['\\', '\r'] => true
  | '\\' :: '\r' :: '\r' :: s => leavesEnds s
  | '\\' :: '\r' :: d :: s => leavesEnds (d :: s)
  | _ => false

/-- The comment of the line begins directly behind an escaped comment character, and more is
left of it than line ends. -/
def Hidden (carcom : Char) (line : List Char) : Prop :=
  ∃ u es, line = u ++ '\\' :: carcom :: carcom :: es ∧
    textBefore carcom none line = u ++ ['\\', carcom] ∧ ¬ (carcom = '\r' ∧ leavesEnds es = true)

/-! ## The loop over the comment characters -/

section CommentLoop

variable {carcom : Char} {u : List Char}

/-- What the scan comes to from a character that it does not look at. -/
def resume (carcom x : Char) (es : List Char) : List Char :=
  if x = carcom then x :: cutComment carcom es else cutComment carcom (x :: es)

/-- What the scan comes to behind an escaped comment character. -/
def afterEscape (carcom : Char) : List Char → List Char
  | [] => []
  | e :: es => resume carcom e es

theorem cutComment_step {d : Char} {s : List Char} (hd : d ≠ carcom)
    (hs : d = '\\' → s.head? ≠ some carcom) :
    cutComment carcom (d :: s) = d :: cutComment carcom s := by
  cases s with
  | nil => rw [cutComment_single hd, cutComment]
  | cons e s =>
      apply cutComment_cons hd
      rintro ⟨hback, rfl⟩
      exact hs hback rfl

theorem cutComment_escaped (hback : carcom ≠ '\\') (v : List Char) :
    cutComment carcom ('\\' :: carcom :: v) = carcom :: afterEscape carcom v := by
  cases v with
  | nil => exact cutComment_escape hback.symm ⟨rfl, rfl⟩
  | cons e es =>
      rw [afterEscape, resume]
      by_cases he : e = carcom
      · rw [if_pos he, he]
        exact cutComment_escape_self hback.symm ⟨rfl, rfl⟩ es
      · rw [if_neg he]
        exact cutComment_escape_cons hback.symm ⟨rfl, rfl⟩ he es

section Plain

variable (hu : carcom ∉ u)
include hu

/-- A text without comment characters stays, up to what is behind it. -/
theorem cutComment_append {v : List Char} (hv : u.getLast? = some '\\' → v.head? ≠ some carcom) :
    cutComment carcom (u ++ v) = u ++ cutComment carcom v := by
  induction u with
  | nil => rfl
  | cons d u ih =>
      rw [List.mem_cons, not_or] at hu
      rw [List.cons_append, cutComment_step (Ne.symm hu.1), ih hu.2]
      · rfl
      · intro hlast
        apply hv
        rw [List.getLast?_cons, hlast]
        rfl
      · intro hback
        cases u with
        | nil => exact hv (congrArg some hback)
        | cons e u => exact fun h => hu.2 (Option.some.inj h ▸ List.mem_cons_self)

theorem cutComment_of_not_mem : cutComment carcom u = u := by
  have h := cutComment_append hu (v := []) (by simp)
  rwa [List.append_nil, cutComment, List.append_nil] at h

theorem cutComment_comment (hlast : u.getLast? ≠ some '\\') (v : List Char) :
    cutComment carcom (u ++ carcom :: v) = u := by
  rw [cutComment_append hu fun h => absurd h hlast, cutComment_self, List.append_nil]

theorem strchr_append (pre v : List Char) :
    strchr (pre ++ (u ++ carcom :: v)) pre.length carcom = some (pre.length + u.length) := by
  have hmem : carcom ∈ u ++ carcom :: v := List.mem_append_right _ List.mem_cons_self
  rw [strchr, List.drop_left, if_pos hmem, takeWhile_ne_append hu]

theorem strchr_of_not_mem (pre : List Char) : strchr (pre ++ u) pre.length carcom = none := by
  rw [strchr, List.drop_left, if_neg hu]

end Plain

theorem commentLoop_none {turns ptrloc : Nat} {str : List Char}
    (h : strchr str ptrloc carcom = none) : commentLoop carcom turns str ptrloc = str := by
  cases turns with
  | zero => rfl
  | succ turns => rw [commentLoop, h]

/-- One turn at an escaped comment character. -/
theorem commentLoop_escape {w : List Char} {start : Nat} (v : List Char) (turns : Nat)
    (h : strchr (w ++ '\\' :: carcom :: v) start carcom = some (w.length + 1)) :
    commentLoop carcom (turns + 1) (w ++ '\\' :: carcom :: v) start =
      commentLoop carcom turns (w ++ carcom :: v) (w.length + 2) := by
  have hprev : (w ++ '\\' :: carcom :: v)[w.length]? = some '\\' := by simp
  have herase : (w ++ '\\' :: carcom :: v).eraseIdx w.length = w ++ carcom :: v := by
    rw [List.eraseIdx_append_of_length_le le_rfl, Nat.sub_self, List.eraseIdx_cons_zero]
  simp only [commentLoop, h]
  rw [if_pos ⟨Nat.succ_ne_zero _, hprev⟩, Nat.add_sub_cancel, herase]

/-- One turn at the comment. -/
theorem commentLoop_comment {w : List Char} {start : Nat} (hlast : w.getLast? ≠ some '\\')
    (v : List Char) (turns : Nat)
    (h : strchr (w ++ carcom :: v) start carcom = some w.length) :
    commentLoop carcom (turns + 1) (w ++ carcom :: v) start = w := by
  have hprev : ¬ (w.length ≠ 0 ∧ (w ++ carcom :: v)[w.length - 1]? = some '\\') := by
    rintro ⟨hne, hprev⟩
    rw [List.getElem?_append_left (by omega), ← List.getLast?_eq_getElem?] at hprev
    exact hlast hprev
  simp only [commentLoop, h]
  rw [if_neg hprev, List.take_left]

theorem resume_escaped (hback : carcom ≠ '\\') (hu : carcom ∉ u) {x : Char} {v w : List Char}
    (hw : x :: u = w ++ ['\\']) :
    resume carcom x (u ++ carcom :: v) = w ++ carcom :: afterEscape carcom v := by
  have hescaped : ∀ {t : List Char}, carcom ∉ t →
      cutComment carcom (t ++ '\\' :: carcom :: v) = t ++ carcom :: afterEscape carcom v := by
    intro t ht
    have hhead : ('\\' :: carcom :: v).head? ≠ some carcom := fun h => hback (Option.some.inj h).symm
    rw [cutComment_append ht fun _ => hhead, cutComment_escaped hback]
  rw [resume]
  by_cases hx : x = carcom
  · rw [if_pos hx]
    cases w with
    | nil => exact absurd (List.cons.inj hw).1 (hx ▸ hback)
    | cons d w =>
        rw [List.cons_append] at hw
        obtain ⟨rfl, rfl⟩ := List.cons.inj hw
        have hw' : carcom ∉ w := fun h => hu (List.mem_append_left _ h)
        rw [List.append_assoc, List.singleton_append, hescaped hw']
        rfl
  · have hw' : carcom ∉ w := by
      intro h
      have hmem : carcom ∈ x :: u := hw ▸ List.mem_append_left _ h
      rcases List.mem_cons.mp hmem with h | h
      · exact hx h.symm
      · exact hu h
    rw [if_neg hx, ← List.cons_append, hw, List.append_assoc, List.singleton_append, hescaped hw']

theorem resume_comment (hu : carcom ∉ u) {x : Char} {v : List Char}
    (hlast : (x :: u).getLast? ≠ some '\\') : resume carcom x (u ++ carcom :: v) = x :: u := by
  rw [resume]
  split
  · rw [cutComment_comment hu]
    intro h
    apply hlast
    rw [List.getLast?_cons, h]
    rfl
  · rename_i hx
    rw [← List.cons_append, cutComment_comment (by simp [hu, Ne.symm hx]) hlast]

/-- The scan behind a character `x` that it does not look at. -/
theorem commentLoop_resume (hback : carcom ≠ '\\') {turns : Nat} {pre es : List Char} {x : Char}
    (hturns : es.length ≤ turns) :
    commentLoop carcom turns (pre ++ x :: es) (pre.length + 1) = pre ++ resume carcom x es := by
  induction turns generalizing pre es x with
  | zero =>
      obtain rfl : es = [] := List.length_eq_zero_iff.mp (by omega)
      rw [commentLoop, resume]
      split
      · rfl
      · rw [cutComment_single (by assumption)]
  | succ turns ih =>
      have hlen : (pre ++ [x]).length = pre.length + 1 := by simp
      by_cases hmem : carcom ∈ es
      · obtain ⟨u, v, rfl, hu⟩ := List.eq_append_cons_of_mem hmem
        have hfound : strchr (pre ++ x :: (u ++ carcom :: v)) (pre.length + 1) carcom =
            some (pre.length + 1 + u.length) := by
          rw [← hlen, List.append_cons pre x]
          exact strchr_append hu (pre ++ [x]) v
        by_cases hlast : (x :: u).getLast? = some '\\'
        · -- an escaped comment character, which stays; the character behind it is passed over
          obtain ⟨w, hw⟩ := List.getLast?_eq_some_iff.mp hlast
          have hwlen : u.length = w.length := by simpa using congrArg List.length hw
          have hstr : pre ++ x :: (u ++ carcom :: v) = (pre ++ w) ++ '\\' :: carcom :: v := by
            rw [← List.cons_append, hw]
            simp
          have hplace : pre.length + 1 + u.length = (pre ++ w).length + 1 := by
            rw [List.length_append]
            omega
          rw [hstr, hplace] at hfound
          rw [hstr, commentLoop_escape v turns hfound, resume_escaped hback hu hw]
          cases v with
          | nil =>
              have hend : strchr ((pre ++ w) ++ [carcom]) ((pre ++ w).length + 2) carcom = none := by
                have hdrop : ((pre ++ w) ++ [carcom]).drop ((pre ++ w).length + 2) = [] :=
                  List.drop_eq_nil_of_le (by simp [Nat.add_assoc])
                rw [strchr, hdrop, if_neg List.not_mem_nil]
              rw [commentLoop_none hend, afterEscape, List.append_assoc]
          | cons e es =>
              have hes : es.length ≤ turns := by
                simp only [List.length_append, List.length_cons] at hturns
                omega
              have hnext := @ih ((pre ++ w) ++ [carcom]) es e hes
              rw [List.length_append, List.length_singleton, ← List.append_cons] at hnext
              rw [hnext, afterEscape]
              simp
        · -- the comment
          have hw : pre ++ x :: (u ++ carcom :: v) = (pre ++ x :: u) ++ carcom :: v := by simp
          have hplace : pre.length + 1 + u.length = (pre ++ x :: u).length := by
            rw [List.length_append, List.length_cons]
            omega
          have hlast' : (pre ++ x :: u).getLast? ≠ some '\\' := by
            rwa [List.getLast?_append_of_ne_nil _ (List.cons_ne_nil _ _)]
          rw [hw, hplace] at hfound
          rw [hw, commentLoop_comment hlast' v turns hfound, resume_comment hu hlast]
      · have hnone := strchr_of_not_mem hmem (pre ++ [x])
        rw [hlen, ← List.append_cons pre x] at hnone
        rw [commentLoop_none hnone, resume]
        split
        · rw [cutComment_of_not_mem hmem]
        · rename_i hx
          rw [cutComment_of_not_mem (by simp [hmem, Ne.symm hx])]

/-- The scan from the start of a string that does not begin with the comment character. -/
theorem commentLoop_eq (hback : carcom ≠ '\\') {str : List Char} (hhead : str.head? ≠ some carcom) :
    commentLoop carcom str.length str 0 = cutComment carcom str := by
  cases str with
  | nil => rfl
  | cons x es =>
      have hx : x ≠ carcom := fun h => hhead (congrArg some h)
      have hstart : strchr (x :: es) 0 carcom = strchr (x :: es) 1 carcom := by
        simp only [strchr, List.drop_zero, List.drop_one, List.tail_cons, List.mem_cons, Ne.symm hx,
          false_or, List.takeWhile_cons, hx, ne_eq, not_false_eq_true, decide_true, if_true,
          List.length_cons, Nat.zero_add, Nat.add_comm]
      have hloop : commentLoop carcom (es.length + 1) (x :: es) 0 =
          commentLoop carcom (es.length + 1) (x :: es) 1 := by
        rw [commentLoop, commentLoop, hstart]
      have hresume := @commentLoop_resume carcom hback (es.length + 1) [] es x (Nat.le_succ es.length)
      rw [List.nil_append, List.length_nil, Nat.zero_add, List.nil_append, resume, if_neg hx] at hresume
      rw [List.length_cons, hloop, hresume]

end CommentLoop

/-! ## What a call returns -/

/-- The loop looks at the closing NUL first, and this ends it. -/
theorem stripLoop_eq (len : Nat) (str : List Char) : stripLoop len str.length str = str := by
  cases len with
  | zero => rfl
  | succ len =>
      have hnul : str[str.length]? = none := List.getElem?_eq_none le_rfl
      rw [stripLoop, hnul, if_neg (by simp)]

theorem aplGetstr_nul {fichier : List Char} {taille : Nat} :
    aplGetstr fichier taille '\x00' =
      (fgets taille fichier).map fun line => (cstr line, fichier.drop line.length) := by
  simp only [aplGetstr, if_true, stripLoop_eq]

/-- With the two loops run, this is the function that the loading of the configuration uses. -/
theorem aplGetstr_eq {carcom : Char} (hnul : carcom ≠ '\x00') (hback : carcom ≠ '\\')
    (fichier : List Char) (taille : Nat) :
    aplGetstr fichier taille carcom =
      (fgets taille fichier).map fun line =>
        (Config.aplGetstr carcom line, fichier.drop line.length) := by
  rw [aplGetstr]
  congr 1
  funext line
  rw [if_neg hnul, Config.aplGetstr]
  split
  · rfl
  · rename_i hhead
    simp only [stripLoop_eq, commentLoop_eq hback hhead]

section Lines

variable {fichier : List Char} {taille : Nat}

theorem takeLine_of_le {n m : Nat} (hm : fichier.length ≤ m) (h : (takeLine m fichier).length ≤ n) :
    takeLine n fichier = takeLine m fichier := by
  induction fichier generalizing n m with
  | nil => cases n <;> cases m <;> rfl
  | cons c s ih =>
      obtain ⟨m, rfl⟩ : ∃ k, m = k + 1 := ⟨m - 1, by rw [List.length_cons] at hm; omega⟩
      rw [takeLine] at h ⊢
      split at h
      · rename_i hc
        obtain ⟨n, rfl⟩ : ∃ k, n = k + 1 := ⟨n - 1, by rw [List.length_singleton] at h; omega⟩
        rw [takeLine, if_pos hc, if_pos hc]
      · rename_i hc
        rw [List.length_cons] at h hm
        obtain ⟨n, rfl⟩ : ∃ k, n = k + 1 := ⟨n - 1, by omega⟩
        rw [takeLine, if_neg hc, if_neg hc,
          ih (Nat.le_of_succ_le_succ hm) (Nat.le_of_succ_le_succ h)]

theorem fgets_firstLine (hne : fichier ≠ []) (hlen : (firstLine fichier).length < taille) :
    fgets taille fichier = some (firstLine fichier) := by
  rw [fgets, if_neg hne, takeLine_of_le le_rfl (n := taille - 1) (m := fichier.length)]
  · rfl
  · rw [← firstLine]
    omega

end Lines

/-! ## The text of a line -/

section Text

variable {carcom : Char}

theorem textBefore_self (s : List Char) : textBefore carcom none (carcom :: s) = [] := by
  rw [textBefore, if_pos ⟨rfl, nofun⟩]

/-- The character before the text counts only where the text begins with a comment character. -/
theorem textBefore_prev {prev : Option Char} {s : List Char}
    (h : prev = some '\\' → s.head? ≠ some carcom) :
    textBefore carcom prev s = textBefore carcom none s := by
  cases s with
  | nil => rfl
  | cons d s =>
      rw [textBefore, textBefore]
      by_cases hd : d = carcom
      · have hprev : prev ≠ some '\\' := fun hback => h hback (congrArg some hd)
        rw [if_pos ⟨hd, hprev⟩, if_pos ⟨hd, nofun⟩]
      · rw [if_neg fun hc => hd hc.1, if_neg fun hc => hd hc.1]

theorem textBefore_cons {d : Char} {s : List Char} (hd : d ≠ carcom)
    (hs : d = '\\' → s.head? ≠ some carcom) :
    textBefore carcom none (d :: s) = d :: textBefore carcom none s := by
  rw [textBefore, if_neg fun hc => hd hc.1, textBefore_prev fun hback => hs (Option.some.inj hback)]

theorem textBefore_escape (hback : carcom ≠ '\\') (s : List Char) :
    textBefore carcom none ('\\' :: carcom :: s) = '\\' :: carcom :: textBefore carcom none s := by
  have hplain : ¬ ('\\' = carcom ∧ (none : Option Char) ≠ some '\\') := fun hc => hback hc.1.symm
  rw [textBefore, if_neg hplain, textBefore, if_neg fun hc => hc.2 rfl,
    textBefore_prev fun h => absurd (Option.some.inj h) hback]

/-- Behind the text there is nothing, or the comment. -/
theorem textBefore_append (prev : Option Char) (s : List Char) :
    s = textBefore carcom prev s ∨ ∃ es, s = textBefore carcom prev s ++ carcom :: es := by
  induction s generalizing prev with
  | nil => exact Or.inl rfl
  | cons d s ih =>
      rw [textBefore]
      split
      · rename_i hd
        exact Or.inr ⟨s, by rw [hd.1, List.nil_append]⟩
      · simp only [List.cons_append, List.cons.injEq, true_and]
        exact ih (some d)

theorem unescape_cons {d : Char} {s : List Char} (h : d = '\\' → s.head? ≠ some carcom) :
    unescape carcom (d :: s) = d :: unescape carcom s := by
  cases s with
  | nil => rfl
  | cons e s =>
      rw [unescape, if_neg fun hc => h hc.1 (congrArg some hc.2)]

theorem unescape_escape (s : List Char) :
    unescape carcom ('\\' :: carcom :: s) = carcom :: unescape carcom s := by
  rw [unescape, if_pos ⟨rfl, rfl⟩]

theorem textBefore_ne_nil {d : Char} (hd : d ≠ carcom) (s : List Char) :
    textBefore carcom none (d :: s) ≠ [] := by
  rw [textBefore, if_neg fun hc => hd hc.1]
  exact List.cons_ne_nil d _

theorem head?_textBefore {s : List Char} (h : s.head? ≠ some carcom) :
    (textBefore carcom none s).head? ≠ some carcom := by
  cases s with
  | nil => exact h
  | cons d s =>
      have hd : d ≠ carcom := fun hd => h (congrArg some hd)
      rw [textBefore, if_neg fun hc => hd hc.1]
      exact h

/-- What the scan leaves of the comment: where it begins directly behind an escaped comment
character, its first character and what the scan makes of the others. -/
def unseen (carcom : Char) (text comment : List Char) : List Char :=
  match comment with
  | [] => []
  | c :: es => if ['\\', carcom] <:+ text then c :: cutComment carcom es else []

theorem unseen_nil (comment : List Char) : unseen carcom [] comment = [] := by
  cases comment with
  | nil => rfl
  | cons c es => rw [unseen, if_neg (by simp)]

theorem unseen_cons {d : Char} {text : List Char} (h : ¬ (d = '\\' ∧ text = [carcom]))
    (comment : List Char) : unseen carcom (d :: text) comment = unseen carcom text comment := by
  have hsuffix : ['\\', carcom] <:+ d :: text ↔ ['\\', carcom] <:+ text := by
    rw [List.suffix_cons_iff]
    refine or_iff_right fun heq => h ?_
    obtain ⟨rfl, htext⟩ := List.cons.inj heq
    exact ⟨rfl, htext.symm⟩
  simp only [unseen, hsuffix]

/-- What the scan comes to on any string. -/
theorem cutComment_lineText (hback : carcom ≠ '\\') (s : List Char) :
    cutComment carcom s = lineText carcom s ++
      unseen carcom (textBefore carcom none s) (s.drop (textBefore carcom none s).length) := by
  rw [lineText]
  induction s using cutComment.induct carcom with
  | case1 => rfl
  | case2 => rw [cutComment_self, textBefore_self, unseen_nil, unescape, List.append_nil]
  | case3 d hcar =>
      rw [cutComment_single hcar, textBefore_cons hcar fun _ => Option.some_ne_none carcom ∘ Eq.symm]
      rfl
  | case4 d ds => rw [cutComment_self, textBefore_self, unseen_nil, unescape, List.append_nil]
  | case5 d e hcar hescape =>
      obtain ⟨rfl, rfl⟩ := hescape
      rw [cutComment_escape hcar ⟨rfl, rfl⟩, textBefore_escape hback, unescape_escape]
      rfl
  | case6 d e hcar hescape es ih =>
      -- here the scan passes over the comment character that ends the text
      obtain ⟨rfl, rfl⟩ := hescape
      rw [cutComment_escape_self hcar ⟨rfl, rfl⟩, textBefore_escape hback, textBefore_self,
        unescape_escape, unescape, unseen.eq_def]
      simp
  | case7 d e hcar hescape f es hf ih =>
      obtain ⟨rfl, rfl⟩ := hescape
      have htext : ¬ ('\\' = '\\' ∧ e :: textBefore e none (f :: es) = [e]) := fun h =>
        textBefore_ne_nil hf es (List.cons.inj h.2).2
      rw [cutComment_escape_cons hcar ⟨rfl, rfl⟩ hf, textBefore_escape hback, unescape_escape,
        unseen_cons htext, unseen_cons (fun h => hback h.1), List.length_cons, List.length_cons,
        List.drop_succ_cons, List.drop_succ_cons, ih]
      rfl
  | case8 d e es hcar hescape ih =>
      have hs : d = '\\' → (e :: es).head? ≠ some carcom := fun hd he =>
        hescape ⟨hd, Option.some.inj he⟩
      have htext : ¬ (d = '\\' ∧ textBefore carcom none (e :: es) = [carcom]) := fun h =>
        head?_textBefore (hs h.1) (congrArg List.head? h.2)
      rw [cutComment_cons hcar hescape, textBefore_cons hcar hs,
        unescape_cons fun hd => head?_textBefore (hs hd), unseen_cons htext, List.length_cons,
        List.drop_succ_cons, ih]
      rfl

/-- What stands behind a string is left apart when it is line ends only. -/
theorem stripEnds_append {s t : List Char} : stripEnds (s ++ t) = stripEnds s ↔ ∀ c ∈ t, isEnd c := by
  induction t using List.reverseRecOn with
  | nil => simp
  | append_singleton t c ih =>
      rw [← List.append_assoc, stripEnds]
      by_cases hc : isEnd c
      · rw [List.rdropWhile_concat_pos _ _ _ hc, ← stripEnds, ih]
        simp only [List.mem_append, List.mem_singleton, or_imp, forall_and, forall_eq, hc, and_true]
      · rw [List.rdropWhile_concat_neg _ _ _ hc]
        refine iff_of_false (fun h => ?_) fun h => hc (h c (by simp))
        have hlen := (List.rdropWhile_prefix isEnd s).length_le
        rw [← stripEnds, ← h] at hlen
        simp only [List.length_append, List.length_singleton] at hlen
        omega

/-- What the scan makes of line ends behind a CR as the comment character. -/
theorem leavesEnds_iff (es : List Char) :
    leavesEnds es = true ↔ ∀ c ∈ cutComment '\r' es, isEnd c := by
  have hcr : isEnd '\r' := rfl
  have hescaped : '\\' = '\\' ∧ '\r' = '\r' := ⟨rfl, rfl⟩
  have hback : '\\' ≠ '\r' := by decide
  induction es using leavesEnds.induct with
  | case1 => simp [leavesEnds, cutComment]
  | case2 s => simp [leavesEnds, cutComment_self]
  | case3 s ih =>
      have hnl : '\n' = '\\' → s.head? ≠ some '\r' := fun h => absurd h (by decide)
      rw [leavesEnds, cutComment_step (by decide) hnl, List.forall_mem_cons]
      exact ih.trans (and_iff_right rfl).symm
  | case4 =>
      rw [cutComment_escape hback hescaped]
      exact iff_of_true rfl (List.forall_mem_singleton.mpr hcr)
  | case5 s ih =>
      rw [leavesEnds, cutComment_escape_self hback hescaped, List.forall_mem_cons,
        List.forall_mem_cons, and_iff_right hcr, and_iff_right hcr]
      exact ih
  | case6 d s hd ih =>
      rw [leavesEnds, cutComment_escape_cons hback hescaped hd, List.forall_mem_cons,
        and_iff_right hcr]
      · exact ih
      · exact hd
  | case7 es h1 h2 h3 h4 h5 h6 =>
      cases es with
      | nil => exact absurd rfl h1
      | cons d s =>
          have hcr' : d ≠ '\r' := fun h => h2 s (h ▸ rfl)
          have hnl : d ≠ '\n' := fun h => h3 s (h ▸ rfl)
          have hs : d = '\\' → s.head? ≠ some '\r' := by
            rintro rfl hhead
            obtain ⟨t, rfl⟩ : ∃ t, s = '\r' :: t := ⟨s.tail, List.eq_cons_of_mem_head? hhead⟩
            cases t with
            | nil => exact h4 rfl
            | cons e t => exact h6 e t rfl
          have hplain : ¬ isEnd d := by simp [isEnd, hcr', hnl]
          rw [leavesEnds, cutComment_step hcr' hs, List.forall_mem_cons]
          · exact iff_of_false Bool.false_ne_true fun h => hplain h.1
          all_goals assumption

theorem mem_unescape {c : Char} (hc : c ≠ '\\') {s : List Char} (h : c ∈ s) :
    c ∈ unescape carcom s := by
  induction s using unescape.induct carcom with
  | case1 => exact h
  | case2 d => exact h
  | case3 d e s hescape ih =>
      rw [unescape, if_pos hescape, List.mem_cons]
      rw [List.mem_cons, List.mem_cons, or_iff_right (hescape.1 ▸ hc)] at h
      exact h.imp_right ih
  | case4 d e s hplain ih =>
      rw [unescape, if_neg hplain]
      exact List.mem_cons.mpr ((List.mem_cons.mp h).imp_right ih)

theorem mem_stripEnds {c : Char} (hc : ¬ isEnd c) {s : List Char} (h : c ∈ s) : c ∈ stripEnds s := by
  rw [← List.rdropWhile_append_rtakeWhile (p := isEnd) (l := s), List.mem_append] at h
  exact h.resolve_right fun hmem => hc (List.mem_rtakeWhile_imp hmem)

/-- A NUL behind the text does not count. -/
theorem textBefore_cstr (hnul : carcom ≠ '\x00') {prev : Option Char} {s : List Char}
    (h : '\x00' ∉ textBefore carcom prev s) :
    textBefore carcom prev (cstr s) = textBefore carcom prev s := by
  induction s generalizing prev with
  | nil => rfl
  | cons d s ih =>
      rw [textBefore] at h
      by_cases hd : d = '\x00'
      · rw [if_neg fun hc => hnul (hc.1.symm.trans hd)] at h
        exact absurd (hd ▸ List.mem_cons_self) h
      · have hcstr : cstr (d :: s) = d :: cstr s := List.takeWhile_cons_of_pos (by simpa using hd)
        rw [hcstr, textBefore, textBefore]
        split
        · rfl
        · rename_i hplain
          rw [if_neg hplain] at h
          rw [ih fun hmem => h (List.mem_cons_of_mem d hmem)]

theorem hidden_iff {s es : List Char} (hs : s = textBefore carcom none s ++ carcom :: es) :
    Hidden carcom s ↔
      ['\\', carcom] <:+ textBefore carcom none s ∧ ¬ (carcom = '\r' ∧ leavesEnds es = true) := by
  constructor
  · rintro ⟨u, es', hs', ht, hends⟩
    refine ⟨⟨u, ht.symm⟩, ?_⟩
    have hes : es = es' := by
      rw [ht, List.append_assoc] at hs
      simpa using List.append_cancel_left (hs.symm.trans hs')
    rwa [hes]
  · rintro ⟨⟨u, hu⟩, hends⟩
    refine ⟨u, es, ?_, hu.symm, hends⟩
    rw [hs, ← hu, List.append_assoc]
    rfl

theorem not_hidden_of_eq {s : List Char} (hs : s = textBefore carcom none s) : ¬ Hidden carcom s := by
  rintro ⟨u, es, hs', ht, -⟩
  have hlen := congrArg List.length (hs'.symm.trans (hs.trans ht))
  simp only [List.length_append, List.length_cons, List.length_nil] at hlen
  omega

/-- A comment character that is a line end and has a comment character behind it is a CR. -/
theorem isEnd_unseen {t es : List Char} (hnl : ∀ u v, t ++ carcom :: es = u ++ '\n' :: v → v = [])
    (ht : ['\\', carcom] <:+ t) : isEnd carcom ↔ carcom = '\r' := by
  refine ⟨fun hend => ?_, fun h => h ▸ rfl⟩
  rw [isEnd, Bool.or_eq_true, decide_eq_true_iff, decide_eq_true_iff] at hend
  refine hend.resolve_left fun heq => ?_
  obtain ⟨u, rfl⟩ := ht
  have hv := hnl (u ++ ['\\']) ('\n' :: es) (by rw [heq]; simp)
  exact List.cons_ne_nil _ _ hv

/-- Line ends apart, the scan returns the text of a line unless its comment is hidden. -/
theorem stripEnds_cutComment (hback : carcom ≠ '\\') {s : List Char}
    (hnl : ∀ u v, s = u ++ '\n' :: v → v = []) :
    stripEnds (cutComment carcom s) = stripEnds (lineText carcom s) ↔ ¬ Hidden carcom s := by
  rw [cutComment_lineText hback, stripEnds_append]
  obtain hs | ⟨es, hs⟩ := @textBefore_append carcom none s
  · have hdrop : s.drop (textBefore carcom none s).length = [] := by rw [← hs, List.drop_length]
    rw [hdrop, unseen]
    exact iff_of_true (List.forall_mem_nil _) (not_hidden_of_eq hs)
  · have hdrop := congrArg (List.drop (textBefore carcom none s).length) hs
    rw [List.drop_left] at hdrop
    rw [hdrop, unseen, hidden_iff hs]
    split
    · rename_i ht
      rw [List.forall_mem_cons, isEnd_unseen (hs ▸ hnl) ht, and_iff_right ht, not_not]
      refine and_congr_right fun hcr => ?_
      subst hcr
      exact (leavesEnds_iff es).symm
    · rename_i ht
      exact iff_of_true (List.forall_mem_nil _) fun h => ht h.1

theorem not_mem_cutComment_cstr (s : List Char) : '\x00' ∉ cutComment carcom (cstr s) := fun h =>
  nul_not_mem_cstr s (mem_of_mem_cutComment h)

/-- `stripEnds_cutComment` for a line that may contain NULs. -/
theorem stripEnds_cutComment_cstr (hnul : carcom ≠ '\x00') (hback : carcom ≠ '\\') {line : List Char}
    (hnl : ∀ u v, line = u ++ '\n' :: v → v = []) :
    stripEnds (cutComment carcom (cstr line)) = stripEnds (lineText carcom line) ↔
      '\x00' ∉ textBefore carcom none line ∧ ¬ Hidden carcom (cstr line) := by
  by_cases hmem : '\x00' ∈ textBefore carcom none line
  · refine iff_of_false (fun heq => ?_) fun h => h.1 hmem
    have hnulEnd : ¬ isEnd '\x00' := by decide
    have htext : '\x00' ∈ stripEnds (lineText carcom line) :=
      mem_stripEnds hnulEnd (mem_unescape (by decide) hmem)
    rw [← heq] at htext
    exact not_mem_cutComment_cstr line ((List.rdropWhile_prefix isEnd _).subset htext)
  · have hnl' : ∀ u v, cstr line = u ++ '\n' :: v → v = [] := by
      intro u v h
      obtain ⟨w, hw⟩ : cstr line <+: line := List.takeWhile_prefix _
      rw [h, List.append_assoc, List.cons_append] at hw
      exact (List.append_eq_nil_iff.mp (hnl u (v ++ w) hw.symm)).1
    rw [and_iff_right hmem, ← stripEnds_cutComment hback hnl', lineText, lineText,
      textBefore_cstr hnul hmem]

end Text

/-- The string that is returned for a line is the text of the line, line ends apart, unless
the comment begins directly behind an escaped comment character or a NUL stands in the text. -/
theorem aplGetstr_comment_iff {fichier : List Char} {taille : Nat} {carcom : Char}
    (hne : fichier ≠ []) (hlen : (firstLine fichier).length < taille) (hnul : carcom ≠ '\x00')
    (hback : carcom ≠ '\\') :
    ∃ str, aplGetstr fichier taille carcom =
        some (str, fichier.drop (firstLine fichier).length) ∧
      (stripEnds str = stripEnds (lineText carcom (firstLine fichier)) ↔
        '\x00' ∉ textBefore carcom none (firstLine fichier) ∧
          ¬ Hidden carcom (cstr (firstLine fichier))) := by
  refine ⟨cutComment carcom (cstr (firstLine fichier)), ?_, ?_⟩
  · rw [aplGetstr_eq hnul hback, fgets_firstLine hne hlen, Option.map_some, Config.aplGetstr]
    split
    · rename_i hhead
      rw [List.eq_cons_of_mem_head? hhead, cutComment_self]
    · rfl
  · exact stripEnds_cutComment_cstr hnul hback fun u v => Pieces.takeLine_newline

theorem aplGetstr_comment_setting :
    ∃ str, aplGetstr "A=1 # one\n".toList 1000 '#' = some (str, []) ∧
      (stripEnds str = "A=1 ".toList ↔
        '\x00' ∉ textBefore '#' none "A=1 # one\n".toList ∧ ¬ Hidden '#' "A=1 # one\n".toList) :=
  @aplGetstr_comment_iff "A=1 # one\n".toList 1000 '#' (by decide) (by decide) (by decide)
    (by decide)

/-- The comment of `\##x` is returned with its comment character. -/
theorem aplGetstr_comment_hidden :
    aplGetstr "\\##x\n".toList 1000 '#' = some ("##x\n".toList, []) ∧
      stripEnds "##x\n".toList ≠ stripEnds (lineText '#' (firstLine "\\##x\n".toList)) := by
  decide

/-! ## The lines of a file -/

theorem reads_unique {taille : Nat} {carcom : Char} {fichier : List Char}
    {strs strs' : List (List Char)}
    (h : Reads taille carcom fichier strs) (h' : Reads taille carcom fichier strs') : strs = strs' := by
  induction h generalizing strs' with
  | eof hnone =>
      cases h' with
      | eof => rfl
      | line hsome => exact absurd (hnone.symm.trans hsome) (by simp)
  | line hsome _ ih =>
      cases h' with
      | eof hnone => exact absurd (hnone.symm.trans hsome) (by simp)
      | line hsome' hrest =>
          obtain ⟨rfl, rfl⟩ := Prod.mk.inj (Option.some.inj (hsome.symm.trans hsome'))
          rw [ih hrest]

theorem fileLines_eq {fichier : List Char} (hne : fichier ≠ []) :
    fileLines fichier =
      firstLine fichier :: fileLines (fichier.drop (firstLine fichier).length) := by
  induction fichier with
  | nil => exact absurd rfl hne
  | cons c s ih =>
      rw [fileLines, firstLine, List.length_cons, takeLine]
      split
      · rename_i hc
        rw [hc, List.length_singleton, List.drop_one, List.tail_cons]
      · rw [← firstLine, List.length_cons, List.drop_succ_cons]
        cases s with
        | nil => rfl
        | cons d s => rw [ih (List.cons_ne_nil d s)]

theorem firstLine_ne_nil {fichier : List Char} (hne : fichier ≠ []) : firstLine fichier ≠ [] := by
  cases fichier with
  | nil => exact absurd rfl hne
  | cons c s =>
      rw [firstLine, List.length_cons, takeLine]
      split
      · exact List.cons_ne_nil c []
      · exact List.cons_ne_nil c _

theorem flatten_fileLines (s : List Char) : (fileLines s).flatten = s := by
  induction s with
  | nil => rfl
  | cons c s ih =>
      rw [fileLines]
      split
      · rename_i hc
        rw [List.flatten_cons, ih, hc]
        rfl
      · cases hlines : fileLines s with
        | nil =>
            rw [hlines] at ih
            rw [← ih]
            rfl
        | cons l ls =>
            rw [hlines, List.flatten_cons] at ih
            rw [List.flatten_cons, List.cons_append, ih]

theorem mem_of_mem_fileLines {s l : List Char} {c : Char} (hl : l ∈ fileLines s) (hc : c ∈ l) :
    c ∈ s := by
  rw [← flatten_fileLines s]
  exact List.mem_flatten.mpr ⟨l, hl, hc⟩

/-- Lines that are not longer than a piece are the pieces. -/
theorem piecesOf_eq_fileLines {n : Nat} (hn : 0 < n) {s : List Char}
    (hlen : ∀ l ∈ fileLines s, l.length ≤ n) : Pieces.piecesOf n s = fileLines s := by
  by_cases hne : s = []
  · subst hne
    exact Pieces.piecesOf_nil
  · rw [fileLines_eq hne] at hlen ⊢
    rw [List.forall_mem_cons] at hlen
    have hline : takeLine n s = firstLine s := takeLine_of_le le_rfl hlen.1
    rw [Pieces.piecesOf_cons hn hne, hline, piecesOf_eq_fileLines hn hlen.2]
termination_by s.length
decreasing_by
  have hfile := List.length_pos_of_ne_nil hne
  have hline := List.length_pos_of_ne_nil (firstLine_ne_nil hne)
  rw [List.length_drop]
  omega

/-- The calls return the lines, up to a NUL in each. -/
theorem reads_lines {fichier : List Char} {taille : Nat}
    (hlen : ∀ l ∈ fileLines fichier, l.length < taille) :
    Reads taille '\x00' fichier ((fileLines fichier).map cstr) := by
  by_cases hne : fichier = []
  · subst hne
    exact Reads.eof rfl
  · rw [fileLines_eq hne] at hlen ⊢
    rw [List.forall_mem_cons] at hlen
    refine Reads.line ?_ (reads_lines hlen.2)
    rw [aplGetstr_nul, fgets_firstLine hne hlen.1, Option.map_some]
termination_by fichier.length
decreasing_by
  have hfile := List.length_pos_of_ne_nil hne
  have hline := List.length_pos_of_ne_nil (firstLine_ne_nil hne)
  rw [List.length_drop]
  omega

/-- A line is what is read of it when it has no end and no NUL. -/
theorem cstr_eq_stripEnds {l : List Char} (hne : l ≠ []) :
    cstr l = stripEnds l ↔ '\x00' ∉ l ∧ ∀ c ∈ l.getLast?, ¬ isEnd c := by
  by_cases hmem : '\x00' ∈ l
  · refine iff_of_false (fun heq => ?_) fun h => h.1 hmem
    have hnulEnd : ¬ isEnd '\x00' := by decide
    exact nul_not_mem_cstr l (heq ▸ mem_stripEnds hnulEnd hmem)
  · rw [cstr_of_not_mem hmem, and_iff_right hmem, eq_comm, stripEnds, List.rdropWhile_eq_self_iff]
    constructor
    · intro h c hc
      obtain rfl := Option.some.inj ((List.getLast?_eq_some_getLast hne).symm.trans hc)
      exact h hne
    · intro h hl
      exact h _ (List.getLast?_eq_some_getLast hl)

theorem firstLine_of_mem {fichier : List Char} (h : '\n' ∈ fichier) :
    ∃ l, firstLine fichier = l ++ ['\n'] := by
  obtain ⟨l, rest, rfl, hl⟩ := List.eq_append_cons_of_mem h
  refine ⟨l, takeLine_of_not_mem hl rest ?_⟩
  rw [List.length_append, List.length_cons]
  omega

theorem firstLine_of_not_mem {fichier : List Char} (h : '\n' ∉ fichier) :
    firstLine fichier = fichier := by
  induction fichier with
  | nil => rfl
  | cons c s ih =>
      rw [List.mem_cons, not_or] at h
      rw [firstLine, List.length_cons, takeLine, if_neg (Ne.symm h.1), ← firstLine, ih h.2]

/-- When the lines are read without their ends: there is one line at most, and nothing ends it. -/
theorem forall_cstr_eq_stripEnds (fichier : List Char) :
    (∀ l ∈ fileLines fichier, cstr l = stripEnds l) ↔
      '\n' ∉ fichier ∧ '\x00' ∉ fichier ∧ fichier.getLast? ≠ some '\r' := by
  by_cases hne : fichier = []
  · subst hne
    exact iff_of_true (List.forall_mem_nil _) ⟨List.not_mem_nil, List.not_mem_nil, nofun⟩
  · by_cases hnl : '\n' ∈ fichier
    · obtain ⟨l, hl⟩ := firstLine_of_mem hnl
      refine iff_of_false (fun h => ?_) fun h => h.1 hnl
      rw [fileLines_eq hne, List.forall_mem_cons, hl, cstr_eq_stripEnds (by simp)] at h
      exact h.1.2 '\n' (by simp) rfl
    · have hlines : fileLines fichier = [fichier] := by
        rw [fileLines_eq hne, firstLine_of_not_mem hnl, List.drop_length, fileLines]
      rw [hlines, List.forall_mem_singleton, cstr_eq_stripEnds hne, and_iff_right hnl]
      refine and_congr_right fun _ => ?_
      have hlast := List.getLast?_eq_some_getLast hne
      have hlastNl : fichier.getLast hne ≠ '\n' := fun h => hnl (h ▸ List.getLast_mem hne)
      rw [hlast]
      simp [isEnd, hlastNl]

/-- The calls return the lines without their ends exactly for a file of one line at most that
has neither an end nor a NUL. -/
theorem reads_lines_iff {fichier : List Char} {taille : Nat}
    (hlen : ∀ l ∈ fileLines fichier, l.length < taille) :
    Reads taille '\x00' fichier ((fileLines fichier).map stripEnds) ↔
      '\n' ∉ fichier ∧ '\x00' ∉ fichier ∧ fichier.getLast? ≠ some '\r' := by
  rw [← forall_cstr_eq_stripEnds, ← List.map_inj_left]
  constructor
  · exact fun h => reads_unique (reads_lines hlen) h
  · intro h
    rw [← h]
    exact reads_lines hlen

theorem reads_lines_one :
    Reads 100 '\x00' "CT_ARCH=x".toList ["CT_ARCH=x".toList] ↔
      '\n' ∉ "CT_ARCH=x".toList ∧ '\x00' ∉ "CT_ARCH=x".toList ∧
        "CT_ARCH=x".toList.getLast? ≠ some '\r' :=
  @reads_lines_iff "CT_ARCH=x".toList 100 (by decide)

/-- The line of a file that ends with a newline is returned with the newline. -/
theorem reads_lines_newline :
    Reads 100 '\x00' "x\n".toList ["x\n".toList] ∧
      ¬ Reads 100 '\x00' "x\n".toList ((fileLines "x\n".toList).map stripEnds) := by
  have hread : Reads 100 '\x00' "x\n".toList ["x\n".toList] :=
    @Reads.line _ _ _ _ [] _ (by decide) (Reads.eof (by decide))
  refine ⟨hread, fun h => ?_⟩
  exact absurd (reads_unique hread h) (by decide)

end Vzgot.Getstr
