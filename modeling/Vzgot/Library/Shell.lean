import Vzgot.Library.Transition

/-!
# Words of a shell

How a POSIX shell splits its input into commands and words. `Lexer.step` reads one
character; `commandsOf` is the commands of a text, every word with the characters that
are left after the quotes are removed and whether each of them was quoted. A text with an
operator or with a parameter or command expansion has no value here, and neither has one
that ends inside quotes. `literal` and `assignment` are what a word stands for as an
argument and as an assignment, unless it is expanded.
-/

set_option autoImplicit false

namespace Vzgot.Shell

open Vzgot.Transition

/-! ## Reading a text -/

/-- Characters of a word, without its quotes, and whether each of them was quoted. -/
abbrev Word := List (Char × Bool)

/-- Where the reader is. -/
inductive Mode where
  | blank
  | word
  | single
  | double
  | escape (inWord : Bool)
  | doubleEscape
  | comment
  deriving DecidableEq

/-- State of the reader: the word it is in, the words of the command before it, and the
commands before that one. -/
structure Lexer where
  mode : Mode
  word : Word
  words : List Word
  commands : List (List Word)

/-- `<blank>` of the portable character set. -/
def isBlank (c : Char) : Bool := c = ' ' || c = '\t'

/-- First character of an operator, or of an expansion. -/
def isOperator (c : Char) : Bool :=
  c = '|' || c = '&' || c = ';' || c = '<' || c = '>' || c = '(' || c = ')' || c = '$' || c = '\x60'

/-- Between two words, with nothing of the command read. -/
def Lexer.between (commands : List (List Word)) : Lexer := ⟨.blank, [], [], commands⟩

/-- One more character in the word. -/
def Lexer.push (s : Lexer) (c : Char) (quoted : Bool) : Lexer :=
  { s with mode := .word, word := s.word ++ [(c, quoted)] }

/-- The word ends, if the reader is in one. -/
def Lexer.endWord (s : Lexer) : Lexer :=
  if s.mode = .word then ⟨.blank, [], s.words ++ [s.word], s.commands⟩ else s

/-- The command ends, if it has any words. -/
def Lexer.endLine (s : Lexer) : Lexer :=
  .between (if s.endWord.words = [] then s.commands else s.commands ++ [s.endWord.words])

/-- A character outside of quotes. -/
def Lexer.unquoted (s : Lexer) (c : Char) : Option Lexer :=
  if c = '\n' then some s.endLine
  else if isBlank c then some s.endWord
  else if c = '#' ∧ s.mode = .blank then some { s with mode := .comment }
  else if c = '\'' then some { s with mode := .single }
  else if c = '"' then some { s with mode := .double }
  else if c = '\\' then some { s with mode := .escape (s.mode = .word) }
  else if isOperator c then none
  else some (s.push c false)

/-- A character behind a backslash in double quotes. -/
def Lexer.doubleEscaped (s : Lexer) (c : Char) : Lexer :=
  if c = '\n' then { s with mode := .double }
  else if c = '$' ∨ c = '\x60' ∨ c = '"' ∨ c = '\\' then { s.push c true with mode := .double }
  else { (s.push '\\' true).push c true with mode := .double }

/-- The next character. -/
def Lexer.step (s : Lexer) (c : Char) : Option Lexer :=
  match s.mode with
  | .blank | .word => s.unquoted c
  | .single => some (if c = '\'' then { s with mode := .word } else { s.push c true with mode := .single })
  | .double =>
      if c = '"' then some { s with mode := .word }
      else if c = '\\' then some { s with mode := .doubleEscape }
      else if c = '$' ∨ c = '\x60' then none
      else some { s.push c true with mode := .double }
  | .escape inWord =>
      if c = '\n' then some { s with mode := if inWord then .word else .blank }
      else some (s.push c true)
  | .doubleEscape => some (s.doubleEscaped c)
  | .comment => some (if c = '\n' then s.endLine else s)

/-- The text may end here. -/
def Mode.open : Mode → Bool
  | .blank | .word | .comment => true
  | _ => false

/-- Commands of a text. -/
def commandsOf (text : List Char) : Option (List (List Word)) :=
  (run Lexer.step (.between []) text).bind fun s =>
    if s.mode.open then some s.endLine.commands else none

/-! ## What a word stands for -/

/-- Behind the opening bracket of a bracket expression, and the `!` or `^` that may stand there,
is a first character, which may be a bracket too, and then the closing bracket. A slash ends
the expression before that. -/
def isBracket (w : Word) : Bool :=
  let w := if w.head? = some ('!', false) ∨ w.head? = some ('^', false) then w.tail else w
  match w with
  | [] => false
  | (c, _) :: w => c ≠ '/' && (w.takeWhile fun d => d.1 ≠ '/').any fun d => d = (']', false)

/-- The word is a pattern for names of files. -/
def isPattern : Word → Bool
  | [] => false
  | (c, quoted) :: w =>
      (!quoted && (c = '*' || c = '?' || (c = '[' && isBracket w))) || isPattern w

/-- `[!]` and `x[a/b]` are no patterns, `[!a]` and `[]]` are. -/
example : ["[!]", "x[a/b]", "[!a]", "[]]"].map
    (fun s => isPattern (s.toList.map fun c => (c, false))) = [false, false, true, true] := by
  decide

/-- The word as an argument, unless it is expanded to something else. -/
def literal (w : Word) : Option (List Char) :=
  if w.head? = some ('~', false) ∨ isPattern w then none else some (w.map Prod.fst)

/-- First character of a name. -/
def isNameStart (c : Char) : Bool := c.isAlpha || c = '_'

/-- Character of a name. -/
def isNameChar (c : Char) : Bool := c.isAlphanum || c = '_'

/-- A name of a variable. -/
def isName : List Char → Bool
  | [] => false
  | c :: cs => isNameStart c && cs.all isNameChar

/-- The word as an assignment, unless its value is expanded to something else. -/
def assignment (w : Word) : Option (List Char × List Char) :=
  let name := w.takeWhile fun d => d ≠ ('=', false)
  let value := (w.dropWhile fun d => d ≠ ('=', false)).tail
  if ('=', false) ∈ w ∧ isName (name.map Prod.fst) ∧ (∀ d ∈ name, d.2 = false) ∧ ('~', false) ∉ value then
    some (name.map Prod.fst, value.map Prod.fst)
  else none

/-- All words of all commands as assignments. -/
def assignmentsOf (commands : List (List Word)) : Option (List (List Char × List Char)) :=
  commands.flatten.mapM assignment

/-! ## Rules -/

section Rules

variable {s : Lexer} {cs : List Char}

/-- A character that stays as it is inside of a word. -/
def isPlain (c : Char) : Bool :=
  c ≠ '\n' && !isBlank c && c ≠ '\'' && c ≠ '"' && c ≠ '\\' && !isOperator c

theorem unquoted_plain {c : Char} (hc : isPlain c = true) (hhash : c = '#' → s.mode ≠ .blank) :
    s.unquoted c = some (s.push c false) := by
  simp only [isPlain, Bool.and_eq_true, decide_eq_true_eq, Bool.not_eq_true'] at hc
  obtain ⟨⟨⟨⟨⟨hnl, hblank⟩, hsingle⟩, hdouble⟩, hescape⟩, hop⟩ := hc
  simp only [Lexer.unquoted, hnl, hblank, hsingle, hdouble, hescape, hop, if_false,
    Bool.false_eq_true]
  exact if_neg fun h => hhash h.1 h.2

/-- Plain characters inside of a word. -/
theorem run_word (hmode : s.mode = .word) (hcs : ∀ c ∈ cs, isPlain c = true) :
    run Lexer.step s cs = some { s with word := s.word ++ cs.map fun c => (c, false) } := by
  induction cs generalizing s with
  | nil => simp
  | cons c cs ih =>
      have hstep : s.step c = some (s.push c false) := by
        rw [Lexer.step, hmode]
        exact unquoted_plain (hcs c List.mem_cons_self) fun _ => by simp [hmode]
      rw [run_cons, hstep, Option.bind_some, ih rfl fun d hd => hcs d (List.mem_cons_of_mem c hd)]
      simp [Lexer.push, hmode]

/-- A word of plain characters. -/
theorem run_start {c : Char} (hmode : s.mode = .blank) (hc : isPlain c = true) (hhash : c ≠ '#')
    (hcs : ∀ d ∈ cs, isPlain d = true) :
    run Lexer.step s (c :: cs) =
      some { s with mode := .word, word := s.word ++ (c :: cs).map fun d => (d, false) } := by
  have hstep : s.step c = some (s.push c false) := by
    rw [Lexer.step, hmode]
    exact unquoted_plain hc fun h => absurd h hhash
  rw [run_cons, hstep, Option.bind_some, run_word rfl hcs]
  simp [Lexer.push]

/-- Blanks between words. -/
theorem run_blanks (hmode : s.mode = .blank) (hcs : ∀ c ∈ cs, isBlank c = true) :
    run Lexer.step s cs = some s := by
  induction cs with
  | nil => rfl
  | cons c cs ih =>
      have hblank := hcs c List.mem_cons_self
      have hnl : c ≠ '\n' := by
        rintro rfl
        cases hblank
      have hstep : s.step c = some s := by
        simp [Lexer.step, hmode, Lexer.unquoted, hnl, hblank, Lexer.endWord]
      rw [run_cons, hstep, Option.bind_some, ih fun d hd => hcs d (List.mem_cons_of_mem c hd)]

/-- A comment, up to the end of the line. -/
theorem run_comment (hmode : s.mode = .comment) (hcs : '\n' ∉ cs) :
    run Lexer.step s cs = some s := by
  induction cs with
  | nil => rfl
  | cons c cs ih =>
      have hnl : c ≠ '\n' := fun h => hcs (by simp [h])
      have hstep : s.step c = some s := by
        simp [Lexer.step, hmode, hnl]
      rw [run_cons, hstep, Option.bind_some, ih fun h => hcs (List.mem_cons_of_mem c h)]

/-- Characters in double quotes that are not special there. -/
theorem run_double (hmode : s.mode = .double)
    (hcs : ∀ c ∈ cs, c ≠ '"' ∧ c ≠ '\\' ∧ c ≠ '$' ∧ c ≠ '\x60') :
    run Lexer.step s cs = some { s with word := s.word ++ cs.map fun c => (c, true) } := by
  induction cs generalizing s with
  | nil => simp
  | cons c cs ih =>
      obtain ⟨hquote, hescape, hdollar, hback⟩ := hcs c List.mem_cons_self
      have hstep : s.step c = some { s.push c true with mode := .double } := by
        simp [Lexer.step, hmode, hquote, hescape, hdollar, hback]
      rw [run_cons, hstep, Option.bind_some, ih rfl fun d hd => hcs d (List.mem_cons_of_mem c hd)]
      simp [Lexer.push, hmode]

theorem endLine_between (commands : List (List Word)) :
    (Lexer.between commands).endLine = .between commands := rfl

/-- A newline where the text may end. -/
theorem step_newline (hopen : s.mode.open = true) : s.step '\n' = some s.endLine := by
  cases hmode : s.mode <;> simp [hmode, Mode.open] at hopen
  all_goals simp [Lexer.step, hmode, Lexer.unquoted]

theorem commandsOf_eq_some {text : List Char} {t : Lexer}
    (hrun : run Lexer.step (.between []) text = some t) (hopen : t.mode.open = true) :
    commandsOf text = some t.endLine.commands := by
  rw [commandsOf, hrun, Option.bind_some, if_pos hopen]

end Rules

/-! ## Assignments -/

theorem isName_ne {c : Char} {cs : List Char} (h : isName cs = true) (hc : c ∈ cs) :
    isNameChar c = true := by
  cases cs with
  | nil => cases hc
  | cons d ds =>
      simp only [isName, Bool.and_eq_true, List.all_eq_true] at h
      rcases List.mem_cons.mp hc with rfl | hc
      · simp only [isNameStart, isNameChar, Bool.or_eq_true] at h ⊢
        exact h.1.imp_left fun halpha => by simp [Char.isAlphanum, halpha]
      · exact h.2 c hc

/-- A character of a name is none of the special ones. -/
theorem ne_of_isNameChar {c d : Char} (hc : isNameChar c = true) (hd : isNameChar d = false) :
    c ≠ d := by
  rintro rfl
  rw [hc] at hd
  cases hd

theorem isPlain_of_isNameChar {c : Char} (hc : isNameChar c = true) : isPlain c = true := by
  have hne := fun d (hd : isNameChar d = false) => ne_of_isNameChar hc hd
  simp only [isPlain, isBlank, isOperator, hne '\n' (by decide), hne ' ' (by decide),
    hne '\t' (by decide), hne '\'' (by decide), hne '"' (by decide), hne '\\' (by decide),
    hne '|' (by decide), hne '&' (by decide), hne ';' (by decide), hne '<' (by decide),
    hne '>' (by decide), hne '(' (by decide), hne ')' (by decide), hne '$' (by decide),
    hne '\x60' (by decide), decide_false, Bool.or_false, Bool.not_false, Bool.and_true,
    ne_eq, not_false_eq_true, decide_true]

/-- A name, an unquoted equal sign, and a value are an assignment. -/
theorem assignment_eq {name value : List Char} {quoted : Bool} (hname : isName name = true)
    (htilde : ('~', false) ∉ value.map fun c => (c, quoted)) :
    assignment (name.map (fun c => (c, false)) ++ ('=', false) :: value.map fun c => (c, quoted)) =
      some (name, value) := by
  have hbefore : ∀ d ∈ name.map (fun c => (c, false)), decide (d ≠ ('=', false)) = true := by
    intro d hd
    obtain ⟨c, hc, rfl⟩ := List.mem_map.mp hd
    have hne := ne_of_isNameChar (isName_ne hname hc) (d := '=') (by decide)
    simp [hne]
  generalize hword : name.map (fun c => (c, false)) ++ ('=', false) :: value.map (fun c => (c, quoted)) =
    word
  have htake : word.takeWhile (fun d => d ≠ ('=', false)) = name.map fun c => (c, false) := by
    rw [← hword, List.takeWhile_append_of_pos hbefore, List.takeWhile_cons_of_neg (by simp),
      List.append_nil]
  have hdrop : (word.dropWhile fun d => d ≠ ('=', false)).tail =
      value.map fun c => (c, quoted) := by
    rw [← hword, List.dropWhile_append_of_pos hbefore, List.dropWhile_cons_of_neg (by simp),
      List.tail_cons]
  have hequal : ('=', false) ∈ word := by
    rw [← hword]
    exact List.mem_append_right _ List.mem_cons_self
  have hfst : (name.map fun c => (c, false)).map Prod.fst = name := by
    rw [List.map_map]
    exact List.map_id' name
  have hplain : ∀ d ∈ name.map (fun c => (c, false)), d.2 = false := by
    intro d hd
    obtain ⟨c, -, rfl⟩ := List.mem_map.mp hd
    rfl
  have hvalue : (value.map fun c => (c, quoted)).map Prod.fst = value := by
    rw [List.map_map]
    exact List.map_id' value
  rw [assignment, htake, hdrop, hfst, hvalue, if_pos ⟨hequal, hname, hplain, htilde⟩]

/-- A name, an equal sign and plain characters are read as one word. -/
theorem run_plain_assignment {name value : List Char} (hname : isName name = true)
    (hvalue : ∀ c ∈ value, isPlain c = true) (commands : List (List Word)) :
    run Lexer.step (.between commands) (name ++ '=' :: value) =
      some ⟨.word, name.map (fun c => (c, false)) ++ ('=', false) :: value.map fun c => (c, false),
        [], commands⟩ := by
  obtain ⟨c, cs, rfl⟩ : ∃ c cs, name = c :: cs := by
    cases name with
    | nil => exact absurd hname (by simp [isName])
    | cons c cs => exact ⟨c, cs, rfl⟩
  have hchar : ∀ d ∈ c :: cs, isNameChar d = true := fun d hd => isName_ne hname hd
  have hplain : ∀ d ∈ cs ++ '=' :: value, isPlain d = true := by
    intro d hd
    rcases List.mem_append.mp hd with hd | hd
    · exact isPlain_of_isNameChar (hchar d (List.mem_cons_of_mem c hd))
    · rcases List.mem_cons.mp hd with rfl | hd
      · decide
      · exact hvalue d hd
  have hfirst := hchar c List.mem_cons_self
  rw [List.cons_append, run_start (s := .between commands) rfl (isPlain_of_isNameChar hfirst)
    (ne_of_isNameChar hfirst (by decide)) hplain]
  simp [Lexer.between]

end Vzgot.Shell
