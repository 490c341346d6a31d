import Vzgot.Config.Load

/-!
# Files of assignments

A file that is meant to be read both by the loader and by the shell consists of blank
lines, comments, and assignments with an optional comment behind them (`Line`). The shell
sources such a file and gives every variable the value that is written there
(`source_textOf`).
-/

set_option autoImplicit false

open Vzgot.Transition

namespace Vzgot.Config

open Vzgot.Shell

/-! ## Lines -/

/-- Character of a line of text. -/
def isText (c : Char) : Bool := c ≠ '\n' && c ≠ '\x00'

/-- Character of a value without quotes. -/
def isUnquoted (c : Char) : Bool := isText c && isPlain c && c ≠ '~'

/-- Character of a value in double quotes. -/
def isQuoted (c : Char) : Bool := isText c && c ≠ '"' && c ≠ '$' && c ≠ '\x60' && c ≠ '\\'

/-- An assignment: the blanks behind it, and the comment behind these. -/
structure Assign where
  name : List Char
  quoted : Bool
  value : List Char
  blanks : List Char
  remark : Option (List Char)
  name_ok : isName name = true
  name_length : name.length ≤ 100
  value_ok : ∀ c ∈ value, (if quoted then isQuoted c else isUnquoted c) = true
  value_length : value.length < 199
  blanks_ok : ∀ c ∈ blanks, isBlank c = true
  remark_ok : ∀ text ∈ remark, blanks ≠ [] ∧ ∀ c ∈ text, isText c = true

/-- A line of a file of assignments. -/
inductive Line where
  | blank (blanks : List Char) (h : ∀ c ∈ blanks, isBlank c = true)
  | comment (text : List Char) (h : ∀ c ∈ text, isText c = true)
  | assign (a : Assign)

/-- The value as it is written. -/
def Assign.body (a : Assign) : List Char :=
  if a.quoted then '"' :: a.value ++ ['"'] else a.value

/-- What is written behind the value. -/
def Assign.trail (a : Assign) : List Char :=
  a.blanks ++ (a.remark.map fun text => '#' :: text).getD []

/-- The line as it is written. -/
def Line.text : Line → List Char
  | .blank blanks _ => blanks
  | .comment text _ => '#' :: text
  | .assign a => a.name ++ '=' :: (a.body ++ a.trail)

/-- The variable and the value that the line is meant to set. -/
def Line.given : Line → Option (List Char × List Char)
  | .assign a => some (a.name, a.value)
  | _ => none

/-- The lines with newlines between them. -/
def textOf (lines : List Line) : List Char := ['\n'].intercalate (lines.map Line.text)

/-! ## The shell -/

/-- The word that the shell reads. -/
def Assign.word (a : Assign) : Word :=
  a.name.map (fun c => (c, false)) ++ ('=', false) :: a.value.map fun c => (c, a.quoted)

/-- Commands of the line. -/
def Line.commands : Line → List (List Word)
  | .assign a => [[a.word]]
  | _ => []

section Shell

variable {s : Lexer} {cs : List Char}

/-- Blanks and a comment behind a word. -/
theorem run_trail (a : Assign) (hmode : s.mode = .word) :
    ∃ t, run Lexer.step s a.trail = some t ∧ t.mode.open = true ∧ t.endLine = s.endLine := by
  have hremark := a.remark_ok
  have hblanks := a.blanks_ok
  rw [Assign.trail]
  generalize a.blanks = blanks at hremark hblanks
  cases blanks with
  | nil =>
      -- without a blank there is no comment
      cases hr : a.remark with
      | none => exact ⟨s, rfl, by rw [hmode]; rfl, rfl⟩
      | some text => exact absurd rfl (hremark text hr).1
  | cons b bs =>
      have hend : s.endWord.mode = .blank := by
        rw [Lexer.endWord, if_pos hmode]
      have hline : ∀ m, m = Mode.blank ∨ m = .comment →
          { s.endWord with mode := m }.endLine = s.endLine := by
        rintro m (rfl | rfl)
        · simp [Lexer.endLine, Lexer.endWord, hmode]
        · simp [Lexer.endLine, Lexer.endWord, hmode]
      have hb := hblanks b List.mem_cons_self
      have hnl : b ≠ '\n' := by
        rintro rfl
        cases hb
      have hstep : s.step b = some s.endWord := by
        rw [Lexer.step, hmode]
        simp only [Lexer.unquoted, hnl, hb, if_true, if_false]
      have hblank : run Lexer.step s (b :: bs) = some s.endWord := by
        rw [run_cons, hstep, Option.bind_some]
        exact run_blanks hend fun c hc => hblanks c (List.mem_cons_of_mem b hc)
      cases hr : a.remark with
      | none =>
          refine ⟨s.endWord, ?_, ?_, ?_⟩
          · simpa using hblank
          · rw [hend]
            rfl
          · rw [← hline .blank (Or.inl rfl), ← hend]
      | some text =>
          refine ⟨{ s.endWord with mode := .comment }, ?_, rfl, hline .comment (Or.inr rfl)⟩
          have htext := (hremark text hr).2
          have hhash : s.endWord.step '#' = some { s.endWord with mode := .comment } := by
            simp [Lexer.step, hend, Lexer.unquoted, isBlank]
          rw [run_append_eq_some]
          refine ⟨s.endWord, hblank, ?_⟩
          rw [Option.map_some, Option.getD_some, run_cons, hhash, Option.bind_some]
          apply run_comment rfl
          intro hmem
          exact absurd (htext '\n' hmem) (by decide)

/-- The shell reads the value as one word. -/
theorem run_body (a : Assign) (hmode : s.mode = .word) :
    run Lexer.step s a.body =
      some { s with word := s.word ++ a.value.map fun c => (c, a.quoted) } := by
  have hvalue := a.value_ok
  rw [Assign.body]
  cases hq : a.quoted with
  | false =>
      simp only [hq, Bool.false_eq_true, if_false] at hvalue ⊢
      exact run_word hmode fun c hc => by
        have h := hvalue c hc
        simp only [isUnquoted, Bool.and_eq_true] at h
        exact h.1.2
  | true =>
      simp only [hq, if_true] at hvalue ⊢
      have hopen : s.step '"' = some { s with mode := .double } := by
        simp [Lexer.step, hmode, Lexer.unquoted, isBlank]
      have hclose : ∀ t : Lexer, t.mode = .double → t.step '"' = some { t with mode := .word } := by
        intro t ht
        simp [Lexer.step, ht]
      have hinside : ∀ c ∈ a.value, c ≠ '"' ∧ c ≠ '\\' ∧ c ≠ '$' ∧ c ≠ '\x60' := by
        intro c hc
        have h := hvalue c hc
        simp only [isQuoted, Bool.and_eq_true, decide_eq_true_eq] at h
        exact ⟨h.1.1.1.2, h.2, h.1.1.2, h.1.2⟩
      rw [List.cons_append, run_cons, hopen, Option.bind_some, run_append_eq_some]
      exact ⟨_, run_double rfl hinside, by rw [run_cons, hclose _ rfl]; simp [hmode]⟩

/-- One line from between two commands. -/
theorem run_line (l : Line) (commands : List (List Word)) :
    ∃ t, run Lexer.step (.between commands) l.text = some t ∧ t.mode.open = true ∧
      t.endLine = .between (commands ++ l.commands) := by
  cases l with
  | blank blanks h =>
      refine ⟨.between commands, run_blanks rfl h, rfl, ?_⟩
      simp [endLine_between, Line.commands]
  | comment text h =>
      refine ⟨⟨.comment, [], [], commands⟩, ?_, rfl, ?_⟩
      · rw [Line.text, run_cons]
        apply run_comment rfl
        intro hmem
        exact absurd (h '\n' hmem) (by decide)
      · simp [Lexer.endLine, Lexer.endWord, Lexer.between, Line.commands]
  | assign a =>
      have hnone : ∀ c ∈ ([] : List Char), isPlain c = true := by simp
      have hname := run_plain_assignment a.name_ok hnone commands
      obtain ⟨t, htrail, hopen, hline⟩ := run_trail a (s := ⟨.word, a.word, [], commands⟩) rfl
      refine ⟨t, ?_, hopen, ?_⟩
      · have htext : Line.text (.assign a) = (a.name ++ ['=']) ++ (a.body ++ a.trail) := by
          simp [Line.text]
        rw [htext, run_append_eq_some]
        refine ⟨_, hname, ?_⟩
        rw [run_append_eq_some]
        refine ⟨_, run_body a rfl, ?_⟩
        simpa [Assign.word] using htrail
      · rw [hline]
        rfl

theorem run_textOf (lines : List Line) (commands : List (List Word)) :
    ∃ t, run Lexer.step (.between commands) (textOf lines) = some t ∧ t.mode.open = true ∧
      t.endLine = .between (commands ++ lines.flatMap Line.commands) := by
  induction lines generalizing commands with
  | nil => exact ⟨.between commands, rfl, rfl, by simp [endLine_between]⟩
  | cons l lines ih =>
      obtain ⟨t, hrun, hopen, hline⟩ := run_line l commands
      cases lines with
      | nil => exact ⟨t, by simpa [textOf] using hrun, hopen, by simpa using hline⟩
      | cons l' lines =>
          have htext : textOf (l :: l' :: lines) = l.text ++ '\n' :: textOf (l' :: lines) := by
            simp [textOf, List.intercalate_cons_cons]
          obtain ⟨u, hrest, hopen', hline'⟩ := ih (commands ++ l.commands)
          refine ⟨u, ?_, hopen', ?_⟩
          · rw [htext, run_append_eq_some]
            refine ⟨t, hrun, ?_⟩
            rw [run_cons, step_newline hopen, Option.bind_some, hline, hrest]
          · rw [hline', List.append_assoc]
            rfl

/-- The word of an assignment is read as the assignment. -/
theorem assignment_word (a : Assign) : assignment a.word = some (a.name, a.value) := by
  refine assignment_eq a.name_ok fun hmem => ?_
  obtain ⟨c, hc, heq⟩ := List.mem_map.mp hmem
  obtain ⟨rfl, hquoted⟩ := Prod.mk.inj heq
  have hvalue := a.value_ok _ hc
  rw [hquoted] at hvalue
  exact absurd hvalue (by decide)

theorem assignmentsOf_commands (lines : List Line) :
    assignmentsOf (lines.flatMap Line.commands) = some (lines.filterMap Line.given) := by
  induction lines with
  | nil => rfl
  | cons l lines ih =>
      rw [assignmentsOf] at ih ⊢
      rw [List.flatMap_cons, List.flatten_append, List.filterMap_cons]
      cases l with
      | blank blanks h => exact ih
      | comment text h => exact ih
      | assign a =>
          simp only [Line.commands, Line.given, List.flatten_cons, List.flatten_nil,
            List.append_nil, List.singleton_append, List.mapM_cons, assignment_word, ih]
          rfl

/-- The shell gives every variable the value that is written last. -/
theorem source_textOf (lines : List Line) (env : Env) :
    source (textOf lines) env = some ((lines.filterMap Line.given).foldl (putVar true) env) := by
  obtain ⟨t, hrun, hopen, hline⟩ := run_textOf lines []
  have hcommands : t.endLine.commands = lines.flatMap Line.commands := by
    rw [hline]
    rfl
  rw [source, commandsOf_eq_some hrun hopen, Option.bind_some, hcommands, assignmentsOf_commands,
    Option.map_some]

end Shell

end Vzgot.Config
