import Mathlib.Tactic.ByContra
import Vzgot.Library.ShellWords
import Vzgot.Library.Stdio

/-!
# The command of `vzgot exec`

`vzexec` (`app/vzgot.c`) puts the arguments behind each other, `cnt_injectcmd`
(`lib/unicnt.c`) puts them into a command line for `system`, and the script `vzgot.exec`
joins what is left of them with blanks and passes it on. The arguments arrive as they were
exactly when nothing in them means anything to the shell of the host
(`injected_unchanged_iff`).
-/

set_option autoImplicit false

open Vzgot.Shell Vzgot.Stdio

namespace Vzgot.Command

/-! ## The command line -/

/-- The loop of `vzexec` over the arguments. -/
def params (args : List (List Char)) : List Char := args.flatMap (· ++ [' '])

/-- `apl_appdir(d_libexec)` -/
def libexecpath : List Char := "/usr/libexec/vzgot".toList

/-- `CMDSEQ` -/
def cmdseq (libexecpath scriptname contname : List Char) (contpid : Int) (params : List Char) :
    List Char :=
  libexecpath ++ "/shell/".toList ++ scriptname ++ ' ' :: contname ++ ' ' :: printInt contpid ++
    ' ' :: params

/-- The line that `vzexec` has the host run. -/
def injectedLine (contname : List Char) (contpid : Int) (args : List (List Char)) : List Char :=
  cmdseq libexecpath "vzgot.exec".toList contname contpid (params args)

/-- `"$*"` in `vzgot.exec` behind both `shift`, for the words that it is called with. -/
def vzgotExec (words : List (List Char)) : List Char := [' '].intercalate (words.drop 3)

/-- The script that is called. -/
def execScript : List Char := "/usr/libexec/vzgot/shell/vzgot.exec".toList

/-- The host runs one command, the script with the name, the number and words which the
script joins to the arguments as they would be joined. -/
def Unchanged (contname : List Char) (contpid : Int) (args : List (List Char)) : Prop :=
  ∃ ws, simpleCommand (injectedLine contname contpid args) =
      some (execScript :: contname :: printInt contpid :: ws) ∧
    vzgotExec (execScript :: contname :: printInt contpid :: ws) = [' '].intercalate args

/-! ## The first words -/

section Words

variable {contname : List Char} {contpid : Int} {args : List (List Char)}

theorem params_eq : params args = blanked args := rfl

theorem injectedLine_eq : injectedLine contname contpid args =
    blanked [execScript, contname, printInt contpid] ++ blanked args := by
  have hscript : libexecpath ++ "/shell/".toList ++ "vzgot.exec".toList = execScript := by decide
  rw [injectedLine, cmdseq, hscript, params_eq]
  simp [blanked]

theorem execScript_safe : SafeWord execScript := by
  have hplain : execScript.all isPlain = true := by decide
  exact ⟨by decide, List.all_eq_true.mp hplain, by decide, by decide, by decide⟩

theorem execScript_assignment : assignment (plainWord execScript) = none := by decide

theorem isPattern_eq_false {w : Word} (h : ∀ d ∈ w, d.1 ≠ '*' ∧ d.1 ≠ '?' ∧ d.1 ≠ '[') :
    isPattern w = false := by
  induction w with
  | nil => rfl
  | cons d w ih =>
      obtain ⟨⟨hstar, hmark, hbracket⟩, hw⟩ := List.forall_mem_cons.mp h
      simp [isPattern, hstar, hmark, hbracket, ih hw]

theorem printInt_safe (n : Int) : SafeWord (printInt n) := by
  have hne : printInt n ≠ [] := List.append_ne_nil_of_right_ne_nil _ Nat.toDigits_ne_nil
  have hchar : ∀ c ∈ printInt n, ∀ d, d ≠ '-' → d.isDigit = false → c ≠ d := by
    rintro c hc d hminus hdigit rfl
    rcases List.mem_append.mp hc with hc | hc
    · split at hc
      · exact hminus (List.mem_singleton.mp hc)
      · cases hc
    · rw [isDigit_of_mem_toDigits hc] at hdigit
      cases hdigit
  have hhead : ∀ d, d ≠ '-' → d.isDigit = false → (printInt n).head? ≠ some d :=
    fun d hminus hdigit heq => hchar d (List.mem_of_mem_head? heq) d hminus hdigit rfl
  refine ⟨hne, ?_, hhead '#' (by decide) (by decide), hhead '~' (by decide) (by decide), ?_⟩
  · intro c hc
    have h := hchar c hc
    simp only [isPlain, isBlank, isOperator, h '\n' (by decide) (by decide),
      h ' ' (by decide) (by decide), h '\t' (by decide) (by decide), h '\'' (by decide) (by decide),
      h '"' (by decide) (by decide), h '\\' (by decide) (by decide), h '|' (by decide) (by decide),
      h '&' (by decide) (by decide), h ';' (by decide) (by decide), h '<' (by decide) (by decide),
      h '>' (by decide) (by decide), h '(' (by decide) (by decide), h ')' (by decide) (by decide),
      h '$' (by decide) (by decide), h '\x60' (by decide) (by decide), decide_false, Bool.or_false,
      Bool.not_false, Bool.and_true, ne_eq, not_false_eq_true, decide_true]
  · apply isPattern_eq_false
    intro d hd
    obtain ⟨c, hc, rfl⟩ := List.mem_map.mp hd
    have h := hchar c hc
    exact ⟨h '*' (by decide) (by decide), h '?' (by decide) (by decide), h '[' (by decide) (by decide)⟩

theorem intercalate_eq_nil {ws : List (List Char)} (h : [' '].intercalate ws = []) :
    ws = [] ∨ ws = [[]] := by
  cases ws with
  | nil => exact Or.inl rfl
  | cons v ws =>
      cases ws with
      | nil => exact Or.inr (by simpa using h)
      | cons w ws => simp [List.intercalate_cons_cons] at h

/-- A number is no word with a blank at its end. -/
theorem printInt_ne (n : Int) (u : List Char) : printInt n ≠ u ++ [' '] := by
  intro heq
  have hplain := (printInt_safe n).2.1 ' ' (heq ▸ List.mem_append_right u (List.mem_singleton_self _))
  exact absurd hplain (by decide)

/-- If the words of the line are joined to the arguments, then all of them are safe. -/
theorem safe_of_unchanged {ws : List (List Char)}
    (h : simpleCommand (injectedLine contname contpid args) =
      some (execScript :: contname :: printInt contpid :: ws))
    (hjoin : [' '].intercalate ws = [' '].intercalate args) :
    ∀ v ∈ execScript :: contname :: printInt contpid :: ws, SafeWord v := by
  have hwords : blanked (execScript :: contname :: printInt contpid :: ws) =
      blanked [execScript, contname, printInt contpid] ++ blanked ws :=
    blanked_append [execScript, contname, printInt contpid] ws
  rw [injectedLine_eq] at h
  -- with as many blanks in the line as behind the words, the line is made of the words
  have hsame : blanked args = blanked ws →
      ∀ v ∈ execScript :: contname :: printInt contpid :: ws, SafeWord v := by
    intro heq
    rw [heq, ← hwords] at h
    exact safe_of_blanked h
  by_cases hargs : args = []
  · subst hargs
    rcases intercalate_eq_nil hjoin with rfl | rfl
    · exact hsame rfl
    · -- there is no character for an empty word
      rw [show blanked [] = [] from rfl, List.append_nil,
        blanked_eq (List.cons_ne_nil _ _)] at h
      have hlength := congrArg List.length
        (blanked_eq (List.cons_ne_nil execScript [contname, printInt contpid]))
      rw [List.length_append, List.length_singleton] at hlength
      rcases simpleCommand_blank h with ⟨⟨us, u, hus⟩, -⟩ | ⟨-, hle, -⟩
      · have happend : [execScript, contname, printInt contpid] ++ [[]] = us ++ [u ++ [' ']] := hus
        simpa using (List.append_inj' happend rfl).2
      · rw [hwords, List.length_append, hlength] at hle
        exact absurd hle (by simp [blanked])
  · by_cases hws : ws = []
    · subst hws
      rw [blanked_eq hargs, ← hjoin] at h
      rcases simpleCommand_blank (x := blanked [execScript, contname, printInt contpid]) h with
        ⟨⟨us, u, hus⟩, -⟩ | ⟨hshort, -, -⟩
      · have happend : [execScript, contname] ++ [printInt contpid] = us ++ [u ++ [' ']] := hus
        exact absurd (List.cons.inj (List.append_inj' happend rfl).2).1 (printInt_ne contpid u)
      · exact safe_of_blanked hshort
    · apply hsame
      rw [blanked_eq hargs, blanked_eq hws, hjoin]

/-- The arguments reach the script as they are, and nothing of them runs on the host, if and
only if the name is a safe word and the arguments, joined with blanks, are safe words with
single blanks between them. -/
theorem injected_unchanged_iff (contname : List Char) (contpid : Int) (args : List (List Char)) :
    Unchanged contname contpid args ↔
      SafeWord contname ∧ ([' '].intercalate args = [] ∨
        ∀ w ∈ ([' '].intercalate args).splitOn ' ', SafeWord w) := by
  constructor
  · rintro ⟨ws, hcommand, hjoin⟩
    have hsafe := safe_of_unchanged hcommand hjoin
    simp only [List.forall_mem_cons] at hsafe
    obtain ⟨-, hname, -, hws⟩ := hsafe
    refine ⟨hname, ?_⟩
    rw [← (show [' '].intercalate ws = [' '].intercalate args from hjoin)]
    by_cases hnil : ws = []
    · exact Or.inl (by rw [hnil]; rfl)
    · right
      -- safe words have no blanks, so the joined words split into themselves
      have hblank : ∀ w ∈ ws, ' ' ∉ w := fun w hw hmem =>
        absurd ((hws w hw).2.1 ' ' hmem) (by decide)
      rwa [List.splitOn_intercalate ' ' hblank hnil]
  · rintro ⟨hname, hargs⟩
    have hfirst : ∀ {ws : List (List Char)}, (∀ w ∈ ws, SafeWord w) →
        ∀ w ∈ execScript :: contname :: printInt contpid :: ws, SafeWord w := by
      intro ws hws
      simp only [List.forall_mem_cons]
      exact ⟨execScript_safe, hname, printInt_safe contpid, hws⟩
    by_cases hnil : [' '].intercalate args = []
    · refine ⟨[], ?_, hnil.symm⟩
      rw [injectedLine_eq]
      apply simpleCommand_safe (hfirst (List.forall_mem_nil _)) execScript_assignment
      intro c hc
      rcases intercalate_eq_nil hnil with rfl | rfl
      · cases hc
      · rw [List.mem_singleton.mp hc]
        rfl
    · have hpieces : [' '].intercalate (([' '].intercalate args).splitOn ' ') =
          [' '].intercalate args := List.intercalate_splitOn ' '
      refine ⟨([' '].intercalate args).splitOn ' ', ?_, hpieces⟩
      have hne : args ≠ [] := by
        rintro rfl
        exact hnil rfl
      -- the line is the same for the arguments and for their pieces
      have hparams : blanked args = blanked (([' '].intercalate args).splitOn ' ') := by
        rw [blanked_eq hne, blanked_eq (List.splitOn_ne_nil _ _), hpieces]
      have hline := simpleCommand_safe (hfirst (hargs.resolve_left hnil)) execScript_assignment
        (List.forall_mem_nil _)
      rw [List.append_nil] at hline
      rw [injectedLine_eq, hparams, ← blanked_append]
      exact hline

/-- A semicolon in an argument is read by the shell of the host. -/
theorem injected_semicolon : ¬ Unchanged ['c'] 7 [['e', 'c', 'h', 'o'], ['a', ';', 'b']] := by
  rintro ⟨ws, hcommand, -⟩
  have hnone : simpleCommand (injectedLine ['c'] 7 [['e', 'c', 'h', 'o'], ['a', ';', 'b']]) = none := by
    decide +kernel
  rw [hnone] at hcommand
  cases hcommand

end Words

end Vzgot.Command
