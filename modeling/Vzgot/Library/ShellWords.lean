import Mathlib.Data.List.Infix
import Vzgot.Library.Shell

/-!
# Words that a shell leaves as they are

A safe word has no character that is special to the shell where it stands (`SafeWord`).
Safe words with blanks behind them are read back as these words (`simpleCommand_safe`).
The converse is a matter of counting: reading never makes more characters than it takes,
and makes fewer as soon as a quote, a comment or an unneeded blank is read. So a text that
gives words of its own length has safe words only (`safe_of_blanked`).
-/

set_option autoImplicit false

open Vzgot.Transition

namespace Vzgot.Shell

/-! ## Safe words -/

/-- A word that is written without quotes. -/
def plainWord (v : List Char) : Word := v.map fun c => (c, false)

/-- The shell reads the word as it is written. -/
def SafeWord (v : List Char) : Prop :=
  v ≠ [] ∧ (∀ c ∈ v, isPlain c = true) ∧ v.head? ≠ some '#' ∧ v.head? ≠ some '~' ∧
    isPattern (plainWord v) = false

/-- Words of a text that is one command without an assignment in front and without anything
that is expanded. -/
def simpleCommand (text : List Char) : Option (List (List Char)) :=
  (commandsOf text).bind fun commands =>
    match commands with
    | [words] => if (words.head?.bind assignment).isSome then none else words.mapM literal
    | _ => none

/-- Every word with a blank behind it. -/
def blanked (vs : List (List Char)) : List Char := vs.flatMap (· ++ [' '])

theorem plainWord_fst (v : List Char) : (plainWord v).map Prod.fst = v := by
  rw [plainWord, List.map_map]
  exact List.map_id' v

theorem literal_plainWord {v : List Char} (h : SafeWord v) : literal (plainWord v) = some v := by
  obtain ⟨hne, -, -, htilde, hpattern⟩ := h
  have hhead : (plainWord v).head? ≠ some ('~', false) := by
    cases v with
    | nil => exact absurd rfl hne
    | cons c cs => simpa [plainWord] using htilde
  rw [literal, if_neg (by simp [hhead, hpattern]), plainWord_fst]

theorem blanked_append (vs ws : List (List Char)) : blanked (vs ++ ws) = blanked vs ++ blanked ws :=
  List.flatMap_append

theorem blanked_eq {vs : List (List Char)} (h : vs ≠ []) : blanked vs = [' '].intercalate vs ++ [' '] := by
  induction vs with
  | nil => exact absurd rfl h
  | cons v vs ih =>
      cases vs with
      | nil => simp [blanked]
      | cons w vs =>
          have hrest := ih (List.cons_ne_nil w vs)
          rw [blanked, List.flatMap_cons, ← blanked, hrest, List.intercalate_cons_cons]
          simp

section Safe

variable {s : Lexer}

theorem run_safe {v : List Char} (h : SafeWord v) (words : List Word) :
    run Lexer.step ⟨.blank, [], words, []⟩ (v ++ [' ']) = some ⟨.blank, [], words ++ [plainWord v], []⟩ := by
  obtain ⟨hne, hplain, hhash, -, -⟩ := h
  obtain ⟨c, cs, rfl⟩ := List.exists_cons_of_ne_nil hne
  obtain ⟨hc, hcs⟩ := List.forall_mem_cons.mp hplain
  rw [run_append_eq_some]
  refine ⟨_, run_start rfl hc (fun heq => hhash (by simp [heq])) hcs, ?_⟩
  simp [run_cons, Lexer.step, Lexer.unquoted, isBlank, Lexer.endWord, plainWord]

theorem run_blanked {vs : List (List Char)} (h : ∀ v ∈ vs, SafeWord v) (words : List Word) :
    run Lexer.step ⟨.blank, [], words, []⟩ (blanked vs) =
      some ⟨.blank, [], words ++ vs.map plainWord, []⟩ := by
  induction vs generalizing words with
  | nil => simp [blanked]
  | cons v vs ih =>
      obtain ⟨hv, hvs⟩ := List.forall_mem_cons.mp h
      rw [blanked, List.flatMap_cons, run_append_eq_some]
      refine ⟨_, run_safe hv words, ?_⟩
      rw [← blanked, ih hvs]
      simp

/-- Safe words, and blanks behind them, are read as these words. -/
theorem simpleCommand_safe {v : List Char} {vs : List (List Char)} {blanks : List Char}
    (h : ∀ w ∈ v :: vs, SafeWord w) (hassign : assignment (plainWord v) = none)
    (hblanks : ∀ c ∈ blanks, isBlank c = true) :
    simpleCommand (blanked (v :: vs) ++ blanks) = some (v :: vs) := by
  have hrun : run Lexer.step (.between []) (blanked (v :: vs) ++ blanks) =
      some ⟨.blank, [], (v :: vs).map plainWord, []⟩ := by
    rw [run_append_eq_some]
    exact ⟨_, run_blanked h [], run_blanks rfl hblanks⟩
  have hcommands : commandsOf (blanked (v :: vs) ++ blanks) = some [(v :: vs).map plainWord] :=
    commandsOf_eq_some hrun rfl
  have hliteral : ((v :: vs).map plainWord).mapM literal = some (v :: vs) := by
    generalize v :: vs = ws at h
    induction ws with
    | nil => rfl
    | cons w ws ih =>
        obtain ⟨hw, hws⟩ := List.forall_mem_cons.mp h
        rw [List.map_cons, List.mapM_cons, literal_plainWord hw, ih hws]
        rfl
  rw [simpleCommand, hcommands, Option.bind_some]
  simp only [List.map_cons, List.head?_cons, Option.bind_some, hassign, Option.isSome_none,
    Bool.false_eq_true, if_false]
  exact hliteral

end Safe

/-! ## Counting characters -/

/-- Characters of the words, with one more for each of them. -/
def wordsSize : List Word → Nat
  | [] => 0
  | w :: ws => w.length + 1 + wordsSize ws

/-- Words that are read to their end. -/
def Lexer.done (s : Lexer) : List Word := s.commands.flatten ++ s.words

/-- Characters that are read; a backslash in double quotes counts until the character behind
it is known. -/
def Lexer.size (s : Lexer) : Nat :=
  wordsSize s.done + s.word.length + if s.mode = .doubleEscape then 1 else 0

/-- A word that was read without quotes. -/
def Bare (w : Word) : Prop :=
  w ≠ [] ∧ (∀ d ∈ w, isPlain d.1 = true ∧ d.2 = false) ∧ w.head? ≠ some ('#', false)

/-- Nothing but unquoted words was read. -/
structure Lexer.Tidy (s : Lexer) : Prop where
  mode : s.mode = .blank ∨ s.mode = .word
  done : ∀ w ∈ s.done, Bare w
  word : s.mode = .word → Bare s.word
  blank : s.mode = .blank → s.word = []

section Counting

variable {s t : Lexer} {c : Char}

theorem wordsSize_append (vs ws : List Word) :
    wordsSize (vs ++ ws) = wordsSize vs + wordsSize ws := by
  induction vs with
  | nil => simp [wordsSize]
  | cons v vs ih =>
      rw [List.cons_append, wordsSize, wordsSize, ih]
      omega

theorem wordsSize_singleton (w : Word) : wordsSize [w] = w.length + 1 := rfl

theorem done_endWord : s.endWord.done = s.done ++ if s.mode = .word then [s.word] else [] := by
  by_cases h : s.mode = .word
  · simp [Lexer.endWord, Lexer.done, h]
  · simp [Lexer.endWord, h]

theorem done_endLine : s.endLine.done = s.endWord.done := by
  have hcommands : s.endWord.commands = s.commands := by
    rw [Lexer.endWord]
    split <;> rfl
  rw [Lexer.endLine, Lexer.between, Lexer.done, Lexer.done, hcommands]
  split
  · rename_i hnil
    simp [hnil]
  · simp

theorem size_push (quoted : Bool) (h : s.mode ≠ .doubleEscape) :
    (s.push c quoted).size = s.size + 1 := by
  simp [Lexer.size, Lexer.push, Lexer.done, h]
  omega

theorem size_endWord_le : s.endWord.size ≤ s.size + if s.mode = .word then 1 else 0 := by
  by_cases h : s.mode = .word
  · rw [Lexer.size, done_endWord, Lexer.size]
    simp only [Lexer.endWord, h, if_true, wordsSize_append, wordsSize_singleton, List.length_nil,
      reduceCtorEq, if_false]
    omega
  · simp [Lexer.endWord, h]

theorem size_endLine_le : s.endLine.size ≤ s.size + if s.mode = .word then 1 else 0 := by
  have hle := size_endWord_le (s := s)
  have hsize : s.endLine.size = wordsSize s.endWord.done := by
    rw [Lexer.size, done_endLine]
    simp [Lexer.endLine, Lexer.between]
  rw [hsize]
  rw [Lexer.size] at hle
  omega

theorem size_mode (m : Mode) :
    { s with mode := m }.size =
      wordsSize s.done + s.word.length + if m = .doubleEscape then 1 else 0 := rfl

theorem size_eq (h : s.mode ≠ .doubleEscape) : s.size = wordsSize s.done + s.word.length := by
  rw [Lexer.size, if_neg h, Nat.add_zero]

/-- Outside of quotes, only a character of a word and the end of a word count. -/
theorem size_unquoted (hmode : s.mode ≠ .doubleEscape) (h : s.unquoted c = some t) :
    t.size ≤ s.size ∨ (t = s.push c false ∧ isPlain c = true ∧ (c = '#' → s.mode ≠ .blank)) ∨
      (s.mode = .word ∧ (t = s.endLine ∨ t = s.endWord)) := by
  have hsame : ∀ m, m ≠ .doubleEscape → { s with mode := m }.size ≤ s.size := by
    intro m hm
    rw [size_mode, if_neg hm, size_eq hmode]
    omega
  -- outside of a word there is no word to end
  have hword : ∀ u : Lexer, (u = s.endLine ∨ u = s.endWord) →
      u.size ≤ s.size ∨ (s.mode = .word ∧ (u = s.endLine ∨ u = s.endWord)) := by
    intro u hu
    by_cases hw : s.mode = .word
    · exact Or.inr ⟨hw, hu⟩
    · left
      rcases hu with rfl | rfl
      · simpa [hw] using size_endLine_le (s := s)
      · simpa [hw] using size_endWord_le (s := s)
  -- the characters in the order in which the lexer looks for them
  rw [Lexer.unquoted] at h
  by_cases hnl : c = '\n'
  · rw [if_pos hnl, Option.some.injEq] at h
    exact (hword t (Or.inl h.symm)).imp_right Or.inr
  rw [if_neg hnl] at h
  by_cases hblank : isBlank c = true
  · rw [if_pos hblank, Option.some.injEq] at h
    exact (hword t (Or.inr h.symm)).imp_right Or.inr
  rw [if_neg hblank] at h
  by_cases hhash : c = '#' ∧ s.mode = .blank
  · rw [if_pos hhash, Option.some.injEq] at h
    exact Or.inl (h ▸ hsame _ (by simp))
  rw [if_neg hhash] at h
  by_cases hsingle : c = '\''
  · rw [if_pos hsingle, Option.some.injEq] at h
    exact Or.inl (h ▸ hsame _ (by simp))
  rw [if_neg hsingle] at h
  by_cases hdouble : c = '"'
  · rw [if_pos hdouble, Option.some.injEq] at h
    exact Or.inl (h ▸ hsame _ (by simp))
  rw [if_neg hdouble] at h
  by_cases hescape : c = '\\'
  · rw [if_pos hescape, Option.some.injEq] at h
    exact Or.inl (h ▸ hsame _ (by simp))
  rw [if_neg hescape] at h
  by_cases hop : isOperator c = true
  · rw [if_pos hop] at h
    cases h
  rw [if_neg hop, Option.some.injEq] at h
  right
  left
  refine ⟨h.symm, ?_, fun heq hm => hhash ⟨heq, hm⟩⟩
  simp [isPlain, hnl, hblank, hsingle, hdouble, hescape, hop]

theorem size_push_mode (quoted : Bool) (m : Mode) :
    { s.push c quoted with mode := m }.size =
      wordsSize s.done + s.word.length + 1 + if m = .doubleEscape then 1 else 0 := by
  rw [size_mode]
  simp [Lexer.push, Lexer.done]
  omega

/-- A character counts at most once. -/
theorem size_step (h : s.step c = some t) : t.size ≤ s.size + 1 := by
  have hunquoted : s.mode ≠ .doubleEscape → s.unquoted c = some t → t.size ≤ s.size + 1 := by
    intro hmode h
    rcases size_unquoted hmode h with hle | ⟨rfl, -⟩ | ⟨hword, rfl | rfl⟩
    · exact Nat.le_succ_of_le hle
    · exact Nat.le_of_eq (size_push false hmode)
    · exact Nat.le_trans size_endLine_le (by simp [hword])
    · exact Nat.le_trans size_endWord_le (by simp [hword])
  have hsame : ∀ m, { s with mode := m }.size ≤ s.size + 1 := by
    intro m
    rw [size_mode, Lexer.size]
    split <;> omega
  have hpush : ∀ m, m ≠ .doubleEscape → { s.push c true with mode := m }.size ≤ s.size + 1 := by
    intro m hm
    rw [size_push_mode, if_neg hm, Lexer.size]
    omega
  rw [Lexer.step] at h
  cases hmode : s.mode with
  | blank => exact hunquoted (by simp [hmode]) (by simpa [hmode] using h)
  | word => exact hunquoted (by simp [hmode]) (by simpa [hmode] using h)
  | single =>
      simp only [hmode, Option.some.injEq] at h
      subst h
      split
      · exact hsame _
      · exact hpush _ (by simp)
  | double =>
      simp only [hmode] at h
      split at h
      · exact Option.some.inj h ▸ hsame _
      · split at h
        · exact Option.some.inj h ▸ hsame _
        · split at h
          · cases h
          · exact Option.some.inj h ▸ hpush _ (by simp)
  | escape inWord =>
      simp only [hmode] at h
      split at h
      · exact Option.some.inj h ▸ hsame _
      · exact Option.some.inj h ▸ Nat.le_of_eq (size_push true (by simp [hmode]))
  | doubleEscape =>
      simp only [hmode, Option.some.injEq] at h
      subst h
      rw [Lexer.doubleEscaped]
      split
      · exact hsame _
      · split
        · exact hpush _ (by simp)
        · -- the backslash was counted before
          rw [size_push_mode, Lexer.size, hmode]
          simp [Lexer.push, Lexer.done]
          omega
  | comment =>
      simp only [hmode, Option.some.injEq] at h
      subst h
      split
      · exact Nat.le_trans size_endLine_le (by simp [hmode])
      · exact Nat.le_succ _

/-- Where every character counts, only unquoted words are read. -/
theorem tidy_step (h : s.step c = some t) (hsize : t.size = s.size + 1) (hs : s.Tidy) : t.Tidy := by
  have hmode : s.mode ≠ .doubleEscape := by
    rcases hs.mode with hm | hm <;> simp [hm]
  have hunquoted : s.unquoted c = some t := by
    rw [Lexer.step] at h
    rcases hs.mode with hm | hm
    · simpa [hm] using h
    · simpa [hm] using h
  -- a character that counts is put into a word, or ends one
  rcases size_unquoted hmode hunquoted with hle | ⟨rfl, hplain, hhash⟩ | ⟨hword, ht⟩
  · omega
  · refine ⟨Or.inr rfl, hs.done, fun _ => ?_, by simp [Lexer.push]⟩
    refine ⟨List.append_ne_nil_of_right_ne_nil _ (List.cons_ne_nil _ _), ?_, ?_⟩
    · intro d hd
      rcases List.mem_append.mp hd with hd | hd
      · rcases hs.mode with hm | hm
        · rw [hs.blank hm] at hd
          cases hd
        · exact (hs.word hm).2.1 d hd
      · rw [List.mem_singleton.mp hd]
        exact ⟨hplain, rfl⟩
    · rcases hs.mode with hm | hm
      · have hne : c ≠ '#' := fun heq => hhash heq hm
        simp [Lexer.push, hs.blank hm, hne]
      · obtain ⟨hne, -, hhead⟩ := hs.word hm
        obtain ⟨d, ds, hd⟩ := List.exists_cons_of_ne_nil hne
        rw [hd] at hhead
        simpa [Lexer.push, hd] using hhead
  · have hdone : ∀ w ∈ s.endWord.done, Bare w := by
      intro w hw
      rw [done_endWord, if_pos hword, List.mem_append, List.mem_singleton] at hw
      rcases hw with hw | rfl
      · exact hs.done w hw
      · exact hs.word hword
    rcases ht with rfl | rfl
    · have hblank : s.endLine.mode ≠ .word := by simp [Lexer.endLine, Lexer.between]
      exact ⟨Or.inl rfl, done_endLine ▸ hdone, fun hm => absurd hm hblank, fun _ => rfl⟩
    · refine ⟨Or.inl ?_, hdone, fun hm => ?_, fun _ => ?_⟩
      · rw [Lexer.endWord, if_pos hword]
      · rw [Lexer.endWord, if_pos hword] at hm
        cases hm
      · rw [Lexer.endWord, if_pos hword]

theorem size_run {x : List Char} (h : run Lexer.step s x = some t) : t.size ≤ s.size + x.length := by
  induction x generalizing s with
  | nil =>
      cases h
      simp
  | cons c x ih =>
      obtain ⟨m, hstep, hrun⟩ := run_cons_eq_some.mp h
      have hle := size_step hstep
      have hrest := ih hrun
      rw [List.length_cons]
      omega

theorem tidy_run {x : List Char} (h : run Lexer.step s x = some t)
    (hsize : t.size = s.size + x.length) (hs : s.Tidy) : t.Tidy := by
  induction x generalizing s with
  | nil =>
      cases h
      exact hs
  | cons c x ih =>
      obtain ⟨m, hstep, hrun⟩ := run_cons_eq_some.mp h
      have hle := size_step hstep
      have hrest := size_run hrun
      rw [List.length_cons] at hsize
      exact ih hrun (by omega) (tidy_step hstep (by omega) hs)

end Counting

/-! ## The words of a text -/

section Texts

variable {x : List Char} {vs : List (List Char)}

/-- Where a text with a blank at its end ends. -/
theorem step_blank {s t : Lexer} (h : s.step ' ' = some t) (hopen : t.mode.open = true) :
    (t.mode = .word ∧ (∃ inWord, s.mode = .escape inWord) ∧ ∃ w, t.word = w ++ [(' ', true)]) ∨
      (t.mode ≠ .word ∧ s.mode.open = true ∧ t.endLine = s.endLine) := by
  rw [Lexer.step] at h
  cases hmode : s.mode with
  | blank =>
      obtain rfl : s = t := by simpa [hmode, Lexer.unquoted, isBlank, Lexer.endWord] using h
      exact Or.inr ⟨by simp [hmode], rfl, rfl⟩
  | word =>
      obtain rfl : s.endWord = t := by simpa [hmode, Lexer.unquoted, isBlank] using h
      exact Or.inr ⟨by simp [Lexer.endWord, hmode], rfl, by simp [Lexer.endLine, Lexer.endWord, hmode]⟩
  | single =>
      simp only [hmode, Option.some.injEq] at h
      subst h
      cases hopen
  | double =>
      simp only [hmode] at h
      simp only [Char.reduceEq, if_false, or_self, Option.some.injEq] at h
      subst h
      cases hopen
  | escape inWord =>
      simp only [hmode, Char.reduceEq, if_false, Option.some.injEq] at h
      subst h
      exact Or.inl ⟨rfl, ⟨inWord, rfl⟩, s.word, rfl⟩
  | doubleEscape =>
      simp only [hmode, Lexer.doubleEscaped, Char.reduceEq, if_false, or_self, Option.some.injEq] at h
      subst h
      cases hopen
  | comment =>
      obtain rfl : s = t := by simpa [hmode] using h
      exact Or.inr ⟨by simp [hmode], rfl, rfl⟩

/-- A blank does not begin an escape. -/
theorem step_blank_mode {s t : Lexer} (h : s.step ' ' = some t) (inWord : Bool) :
    t.mode ≠ .escape inWord := by
  rw [Lexer.step] at h
  cases hmode : s.mode <;>
    simp only [hmode, Lexer.unquoted, Lexer.doubleEscaped, isBlank, Char.reduceEq, decide_true,
      Bool.true_or, or_self, if_true, if_false, Option.some.injEq] at h <;> subst h
  all_goals simp [Lexer.endWord, Lexer.push, hmode]

theorem literal_eq_some {w : Word} {v : List Char} (h : literal w = some v) :
    v = w.map Prod.fst ∧ w.head? ≠ some ('~', false) ∧ isPattern w = false := by
  rw [literal] at h
  split at h
  · cases h
  · rename_i hne
    simp only [not_or, Bool.not_eq_true] at hne
    exact ⟨(Option.some.inj h).symm, hne⟩

theorem safeWord_of_bare {w : Word} {v : List Char} (hw : Bare w) (h : literal w = some v) :
    SafeWord v := by
  obtain ⟨rfl, htilde, hpattern⟩ := literal_eq_some h
  obtain ⟨hne, hplain, hhash⟩ := hw
  have hword : plainWord (w.map Prod.fst) = w := by
    rw [plainWord, List.map_map]
    conv_rhs => rw [← List.map_id w]
    apply List.map_congr_left
    intro d hd
    exact Prod.ext rfl (hplain d hd).2.symm
  obtain ⟨d, ds, rfl⟩ := List.exists_cons_of_ne_nil hne
  have hflag : d.2 = false := (hplain d List.mem_cons_self).2
  refine ⟨List.cons_ne_nil _ _, ?_, ?_, ?_, hword.symm ▸ hpattern⟩
  · intro c hc
    obtain ⟨e, he, rfl⟩ := List.mem_map.mp hc
    exact (hplain e he).1
  · intro heq
    exact hhash (congrArg some (Prod.ext (Option.some.inj heq) hflag))
  · intro heq
    exact htilde (congrArg some (Prod.ext (Option.some.inj heq) hflag))

/-- Words and what they stand for. -/
theorem mapM_literal {ws : List Word} {vs : List (List Char)} (h : ws.mapM literal = some vs) :
    vs = ws.map (fun w => w.map Prod.fst) ∧ ∀ w ∈ ws, literal w = some (w.map Prod.fst) := by
  induction ws generalizing vs with
  | nil =>
      obtain rfl : [] = vs := by simpa using h
      exact ⟨rfl, by simp⟩
  | cons w ws ih =>
      rw [List.mapM_cons, Option.bind_eq_bind, Option.bind_eq_some_iff] at h
      obtain ⟨v, hv, h⟩ := h
      rw [Option.bind_eq_bind, Option.bind_eq_some_iff] at h
      obtain ⟨us, hus, h⟩ := h
      obtain rfl : v :: us = vs := by simpa using h
      obtain ⟨rfl, hall⟩ := ih hus
      obtain ⟨rfl, -⟩ := literal_eq_some hv
      exact ⟨rfl, List.forall_mem_cons.mpr ⟨hv, hall⟩⟩

theorem length_blanked (ws : List Word) :
    (blanked (ws.map fun w => w.map Prod.fst)).length = wordsSize ws := by
  induction ws with
  | nil => rfl
  | cons w ws ih =>
      rw [List.map_cons, blanked, List.flatMap_cons, List.length_append, ← blanked, ih]
      simp [wordsSize]

theorem simpleCommand_eq_some {text : List Char} :
    simpleCommand text = some vs ↔ ∃ words, commandsOf text = some [words] ∧
      (words.head?.bind assignment).isSome = false ∧ words.mapM literal = some vs := by
  rw [simpleCommand, Option.bind_eq_some_iff]
  constructor
  · rintro ⟨commands, hcommands, h⟩
    match commands with
    | [words] =>
        simp only at h
        split at h
        · cases h
        · rename_i hassign
          exact ⟨words, hcommands, by simpa using hassign, h⟩
  · rintro ⟨words, hcommands, hassign, h⟩
    refine ⟨[words], hcommands, ?_⟩
    simp only [hassign, Bool.false_eq_true, if_false]
    exact h

/-- A text with a blank at its end has no more characters in its words than it has itself,
unless this blank ends the last word; and if it has as many, then its words are safe. -/
theorem simpleCommand_blank (h : simpleCommand (x ++ [' ']) = some vs) :
    ((∃ us u, vs = us ++ [u ++ [' ']]) ∧ ∀ y, x ≠ y ++ [' ']) ∨
      (simpleCommand x = some vs ∧ (blanked vs).length ≤ x.length + 1 ∧
        ((blanked vs).length = x.length + 1 → ∀ v ∈ vs, SafeWord v)) := by
  obtain ⟨words, hcommands, hassign, hvs⟩ := simpleCommand_eq_some.mp h
  obtain ⟨rfl, hliteral⟩ := mapM_literal hvs
  rw [length_blanked]
  rw [commandsOf, Option.bind_eq_some_iff] at hcommands
  obtain ⟨t, hrun, hend⟩ := hcommands
  split at hend
  case isFalse => cases hend
  case isTrue hopen =>
    have hdone : t.endLine.done = words := by
      rw [Lexer.done, Option.some.inj hend]
      simp [Lexer.endLine, Lexer.between]
    rw [done_endLine, done_endWord] at hdone
    obtain ⟨s, hrun', hstep⟩ := run_concat_eq_some.mp hrun
    rcases step_blank hstep hopen with ⟨hword, ⟨inWord, hescape⟩, w, hw⟩ | ⟨hword, hopen', hline⟩
    · -- a backslash in front of the blank makes it a character of the last word
      left
      rw [if_pos hword, hw] at hdone
      refine ⟨⟨t.done.map fun w => w.map Prod.fst, w.map Prod.fst, by simp [← hdone]⟩, ?_⟩
      rintro y rfl
      obtain ⟨r, -, hr⟩ := run_concat_eq_some.mp hrun'
      exact step_blank_mode hr inWord hescape
    · right
      rw [if_neg hword, List.append_nil] at hdone
      -- no step counts more than its character
      have hsize := size_run hrun
      have hzero : (Lexer.between []).size = 0 := rfl
      have hle : wordsSize words ≤ t.size := by
        rw [Lexer.size, hdone]
        omega
      rw [hzero, List.length_append, List.length_singleton] at hsize
      refine ⟨simpleCommand_eq_some.mpr ⟨words, ?_, hassign, hvs⟩, by omega, ?_⟩
      · rw [commandsOf_eq_some hrun' hopen', ← hline]
        exact hend
      · intro hlength
        have htidy : (Lexer.between []).Tidy :=
          ⟨Or.inl rfl, List.forall_mem_nil _, fun hm => absurd hm (by decide), fun _ => rfl⟩
        have ht := tidy_run hrun (by rw [hzero, List.length_append, List.length_singleton]; omega) htidy
        intro v hv
        obtain ⟨w, hw, rfl⟩ := List.mem_map.mp hv
        exact safeWord_of_bare (ht.done w (hdone ▸ hw)) (hliteral w hw)

/-- Words that are read back from themselves with blanks between them are safe. -/
theorem safe_of_blanked (h : simpleCommand (blanked vs) = some vs) : ∀ v ∈ vs, SafeWord v := by
  by_cases hnil : vs = []
  · simp [hnil]
  · rw [blanked_eq hnil] at h
    have hblanked := blanked_eq hnil
    rcases simpleCommand_blank h with ⟨⟨us, u, rfl⟩, hlast⟩ | ⟨-, -, hsafe⟩
    · -- the last word would end the text with two blanks
      have htwo : [' '].intercalate (us ++ [u ++ [' ']]) ++ [' '] = (blanked us ++ u ++ [' ']) ++ [' '] := by
        rw [← hblanked, blanked_append]
        simp [blanked]
      exact absurd (List.append_cancel_right htwo) (hlast _)
    · apply hsafe
      rw [hblanked, List.length_append, List.length_singleton]

/-- A blank behind a text that has come to its end is not a part of a word. -/
theorem simpleCommand_append_blank (h : simpleCommand x = some vs) :
    simpleCommand (x ++ [' ']) = some vs := by
  obtain ⟨words, hcommands, hassign, hvs⟩ := simpleCommand_eq_some.mp h
  refine simpleCommand_eq_some.mpr ⟨words, ?_, hassign, hvs⟩
  rw [commandsOf, Option.bind_eq_some_iff] at hcommands
  obtain ⟨s, hrun, hend⟩ := hcommands
  split at hend
  case isFalse => cases hend
  case isTrue hopen =>
    have hstep : ∃ t, s.step ' ' = some t ∧ t.mode.open = true ∧ t.endLine = s.endLine := by
      cases hmode : s.mode with
      | blank => exact ⟨s, by simp [Lexer.step, hmode, Lexer.unquoted, isBlank, Lexer.endWord], hopen, rfl⟩
      | word =>
          refine ⟨s.endWord, by simp [Lexer.step, hmode, Lexer.unquoted, isBlank], ?_, ?_⟩
          · simp [Lexer.endWord, hmode, Mode.open]
          · simp [Lexer.endLine, Lexer.endWord, hmode]
      | comment => exact ⟨s, by simp [Lexer.step, hmode], hopen, rfl⟩
      | _ =>
          rw [hmode] at hopen
          cases hopen
    obtain ⟨t, ht, hlast, hline⟩ := hstep
    rw [commandsOf_eq_some (run_concat_eq_some.mpr ⟨s, hrun, ht⟩) hlast, hline]
    exact hend

/-- With two blanks behind it a text has no more characters in its words than it has itself, and
safe words if it has as many. -/
theorem simpleCommand_size (h : simpleCommand x = some vs) :
    (blanked vs).length ≤ x.length + 2 ∧
      ((blanked vs).length = x.length + 2 → ∀ v ∈ vs, SafeWord v) := by
  have hblank := simpleCommand_append_blank h
  rcases simpleCommand_blank (simpleCommand_append_blank hblank) with ⟨-, hlast⟩ | ⟨-, hle, hsafe⟩
  · exact absurd rfl (hlast x)
  · rw [List.length_append, List.length_singleton] at hle hsafe
    exact ⟨hle, hsafe⟩

/-- Words with single blanks between them are read back if and only if they are safe. -/
theorem simpleCommand_joined {v : List Char} (hassign : assignment (plainWord v) = none) :
    simpleCommand ([' '].intercalate (v :: vs)) = some (v :: vs) ↔ ∀ w ∈ v :: vs, SafeWord w := by
  constructor
  · intro h
    apply safe_of_blanked
    rw [blanked_eq (List.cons_ne_nil v vs)]
    exact simpleCommand_append_blank h
  · intro h
    have hread := simpleCommand_safe h hassign (List.forall_mem_nil _)
    rw [List.append_nil, blanked_eq (List.cons_ne_nil v vs)] at hread
    rcases simpleCommand_blank hread with ⟨⟨us, u, hus⟩, -⟩ | ⟨hshort, -⟩
    · -- a safe word has no blank
      have hmem : u ++ [' '] ∈ v :: vs := by
        rw [hus]
        exact List.mem_append_right us List.mem_cons_self
      have hplain := (h _ hmem).2.1 ' ' (List.mem_append_right u List.mem_cons_self)
      exact absurd hplain (by decide)
    · exact hshort

end Texts

end Vzgot.Shell
