import Vzgot.Config.Lines

/-!
# The loader and the shell

The loader cuts a line at the first `#` and reads a value up to the first white space, in
quotes or not, it does not take an empty value without quotes, and it reads the bytes of a
line from the thousandth on as a line of their own. `Line.taken` says what it takes from
each line in these terms. Loader and shell agree on two files exactly when for every
variable the last value taken is the last value written (`loadconfig_agrees_iff`).
-/

set_option autoImplicit false

open Vzgot.Stdio Vzgot.Pieces Vzgot.Shell

namespace Vzgot.Config

/-! ## What the loader takes -/

/-- The value that the loader takes from an assignment. -/
def Assign.read (a : Assign) : Option (List Char) :=
  if a.quoted then some (a.value.takeWhile fun c => c ≠ '#' && !isSpace c)
  else
    let word := scanWord (a.value.takeWhile (· ≠ '#'))
    if word = [] then none else some word

/-- The variable that the loader sets from the beginning of a line. -/
def Line.first : Line → Option (List Char × List Char)
  | .assign a => a.read.map fun value => (a.name, value)
  | _ => none

/-- The variables that the loader sets from the rest of a long line. -/
def Line.rest (l : Line) : List (List Char × List Char) :=
  (linePieces 999 l.text).tail.filterMap setting

/-- The variables that the loader sets from a line. -/
def Line.taken (l : Line) : List (List Char × List Char) := l.first.toList ++ l.rest

/-! ## Reading a piece -/

section Setting

variable {p : List Char}

theorem aplGetstr_newline (p : List Char) :
    aplGetstr '#' (p ++ ['\n']) = aplGetstr '#' p ∨
      aplGetstr '#' (p ++ ['\n']) = aplGetstr '#' p ++ ['\n'] := by
  -- a NUL in the piece hides the newline
  have hcstr : cstr (p ++ ['\n']) = cstr p ∨ cstr (p ++ ['\n']) = cstr p ++ ['\n'] := by
    rw [cstr, cstr, List.takeWhile_append]
    split
    · rename_i hlen
      rw [(List.takeWhile_prefix _).eq_of_length hlen]
      exact Or.inr rfl
    · exact Or.inl rfl
  rcases hcstr with h | h
  · exact Or.inl (by rw [aplGetstr, aplGetstr, h])
  · rw [aplGetstr, aplGetstr, h]
    cases hs : cstr p with
    | nil => exact Or.inr (by simp [cutComment])
    | cons c cs =>
        by_cases hc : c = '#'
        · simp [hc]
        · simpa [hc] using cutComment_newline (by decide) (c :: cs)

/-- A name of at most 100 characters and a word behind the first equals sign are read. -/
theorem scanLine_eq {name : List Char} (hname : '=' ∉ name) (rest : List Char) :
    scanLine (name ++ '=' :: rest) =
      if name.length ≤ 100 ∧ name ≠ [] ∧ scanWord rest ≠ [] then
        some (name, (scanWord rest).take 199) else none := by
  have htake : (name ++ '=' :: rest).takeWhile (· ≠ '=') = name := takeWhile_ne_append hname rest
  rw [scanLine, htake]
  by_cases hlen : name.length ≤ 100
  · rw [List.take_of_length_le hlen]
    simp only [List.drop_left, hlen, true_and]
    by_cases hnil : name = []
    · simp [hnil]
    · by_cases hword : scanWord rest = []
      · simp [hnil, hword]
      · simp [hnil, hword]
  · -- what is behind a hundred characters is not the equals sign
    obtain ⟨c, cs, hc⟩ := List.exists_cons_of_length_pos (l := name.drop 100)
      (by rw [List.length_drop]; omega)
    have hmem : c ∈ name := List.mem_of_mem_drop (hc ▸ List.mem_cons_self)
    have hne : c ≠ '=' := fun heq => hname (heq ▸ hmem)
    have hdrop : (name ++ '=' :: rest).drop (name.take 100).length = c :: (cs ++ '=' :: rest) := by
      rw [List.length_take, Nat.min_eq_left (by omega), List.drop_append_of_le_length (by omega), hc]
      rfl
    rw [if_neg fun h => hlen h.1]
    simp only [hdrop]
    split
    · rename_i heq
      exact absurd (List.cons.inj heq).1 hne
    · rfl

theorem scanLine_newline (h : '=' ∈ p) : scanLine (p ++ ['\n']) = scanLine p := by
  obtain ⟨name, rest, rfl, hname⟩ := List.eq_append_cons_of_mem h
  have hword : scanWord (rest ++ ['\n']) = scanWord rest :=
    scanWord_append_space rest (by simp [isSpace])
  rw [List.append_assoc, List.cons_append, scanLine_eq hname, scanLine_eq hname, hword]

/-- The newline at the end of a piece does not matter. -/
theorem setting_newline (p : List Char) : setting (p ++ ['\n']) = setting p := by
  rw [setting, setting]
  rcases aplGetstr_newline p with h | h
  · rw [h]
  · rw [h]
    by_cases hequal : '=' ∈ aplGetstr '#' p
    · have hne : aplGetstr '#' p ≠ [] := List.ne_nil_of_mem hequal
      simp [hequal, hne, scanLine_newline hequal]
    · simp [hequal]

/-- A piece without an equals sign sets nothing. -/
theorem setting_eq_none (h : '=' ∉ p) : setting p = none := by
  have hline : '=' ∉ aplGetstr '#' p := by
    intro hmem
    rw [aplGetstr] at hmem
    split at hmem
    · cases hmem
    · exact h (List.takeWhile_subset _ (mem_of_mem_cutComment hmem))
  rw [setting, if_pos (Or.inr hline)]

/-- A comment sets nothing. -/
theorem setting_comment (p : List Char) : setting ('#' :: p) = none := by
  have hline : aplGetstr '#' ('#' :: p) = [] := by
    simp [aplGetstr, cstr]
  rw [setting, hline, if_pos (Or.inl rfl)]

end Setting

/-! ## The beginning of an assignment -/

section Beginning

variable (a : Assign)

theorem Assign.name_ne {d : Char} (hd : isNameChar d = false) : d ∉ a.name := fun hmem =>
  ne_of_isNameChar (isName_ne a.name_ok hmem) hd rfl

theorem Assign.name_ne_nil : a.name ≠ [] := by
  intro hnil
  have hname := a.name_ok
  rw [hnil] at hname
  cases hname

/-- A character of a value is neither a NUL, nor a double quote, nor a backslash. -/
theorem Assign.value_ne {c : Char} (hc : c ∈ a.value) : c ≠ '\x00' ∧ c ≠ '"' ∧ c ≠ '\\' := by
  have hvalue := a.value_ok c hc
  cases hq : a.quoted with
  | true =>
      simp only [hq, if_true, isQuoted, isText, Bool.and_eq_true, decide_eq_true_eq] at hvalue
      exact ⟨hvalue.1.1.1.1.2, hvalue.1.1.1.2, hvalue.2⟩
  | false =>
      simp only [hq, Bool.false_eq_true, if_false, isUnquoted, isPlain, isText, Bool.and_eq_true,
        decide_eq_true_eq] at hvalue
      exact ⟨hvalue.1.1.2, hvalue.1.2.1.1.2, hvalue.1.2.1.2⟩

theorem Assign.mem_body {c : Char} (hc : c ∈ a.body) : c ∈ a.value ∨ c = '"' := by
  rw [Assign.body] at hc
  split at hc
  · simp only [List.cons_append, List.mem_cons, List.mem_append, List.not_mem_nil, or_false] at hc
    tauto
  · exact Or.inl hc

theorem isSpace_of_isBlank {c : Char} (h : isBlank c = true) : isSpace c = true := by
  simp only [isBlank, Bool.or_eq_true, decide_eq_true_eq] at h
  rcases h with rfl | rfl
  · decide
  · decide

/-- The line up to its comment: the value up to a comment character, or with its blanks. -/
theorem takeWhile_trail (body : List Char) {blanks r : List Char}
    (hblanks : ∀ c ∈ blanks, isBlank c = true)
    (hr : r = [] ∨ r.head? = some '#') :
    ∃ spaces, (∀ c ∈ spaces, isBlank c = true) ∧
      (body ++ (blanks ++ r)).takeWhile (· ≠ '#') = body.takeWhile (· ≠ '#') ++ spaces := by
  have hrest : (blanks ++ r).takeWhile (· ≠ '#') = blanks := by
    rw [List.takeWhile_append_of_pos]
    · rcases hr with rfl | hr
      · simp
      · cases r with
        | nil => cases hr
        | cons d ds =>
            obtain rfl : d = '#' := by simpa using hr
            simp
    · intro c hc
      have hne : c ≠ '#' := by
        rintro rfl
        cases hblanks _ hc
      exact decide_eq_true hne
  rw [List.takeWhile_append, hrest]
  split
  · rename_i hlen
    rw [(List.takeWhile_prefix _).eq_of_length hlen]
    exact ⟨blanks, hblanks, rfl⟩
  · exact ⟨[], by simp, by simp⟩

theorem unquote_of_not_mem {s : List Char} (h : '"' ∉ s) : unquote s = s := by
  cases s with
  | nil => rfl
  | cons c cs =>
      have hc : c ≠ '"' := fun heq => h (heq ▸ List.mem_cons_self)
      rw [unquote]
      rintro contents heq
      exact hc (List.cons.inj heq).1

/-- What is read behind the equals sign, and then taken out of the quotes. -/
theorem read_eq_word :
    (if scanWord (a.body.takeWhile (· ≠ '#')) = [] then none
      else some (unquote ((scanWord (a.body.takeWhile (· ≠ '#'))).take 199))) = a.read := by
  have hlen := a.value_length
  rw [Assign.read, Assign.body]
  cases hq : a.quoted with
  | false =>
      simp only [Bool.false_eq_true, if_false]
      have hsub : scanWord (a.value.takeWhile (· ≠ '#')) <:+: a.value :=
        (List.takeWhile_prefix _).isInfix.trans
          ((List.dropWhile_suffix _).isInfix.trans (List.takeWhile_prefix _).isInfix)
      have hquote : '"' ∉ scanWord (a.value.takeWhile (· ≠ '#')) := fun hmem =>
        (a.value_ne (hsub.subset hmem)).2.1 rfl
      rw [List.take_of_length_le (by have := hsub.length_le; omega), unquote_of_not_mem hquote]
  | true =>
      simp only [if_true]
      have hpred : (fun c => decide ((!isSpace c) = true ∧ decide (c ≠ '#') = true)) =
          fun c => decide (c ≠ '#') && !isSpace c := by
        funext c
        cases isSpace c <;> simp
      have hword : scanWord (('"' :: a.value ++ ['"']).takeWhile (· ≠ '#')) =
          '"' :: (a.value ++ ['"']).takeWhile fun c => c ≠ '#' && !isSpace c := by
        rw [List.cons_append, List.takeWhile_cons_of_pos (by decide), scanWord_of_head (by simp [isSpace]),
          List.takeWhile_cons_of_pos (by decide), List.takeWhile_takeWhile, hpred]
      -- the closing quote is read with the value, unless the word ends before it
      obtain ⟨e, he, htake⟩ : ∃ e, (e = [] ∨ e = ['"']) ∧
          (a.value ++ ['"']).takeWhile (fun c => c ≠ '#' && !isSpace c) =
            a.value.takeWhile (fun c => c ≠ '#' && !isSpace c) ++ e := by
        rw [List.takeWhile_append]
        split
        · rename_i hall
          rw [(List.takeWhile_prefix _).eq_of_length hall]
          exact ⟨['"'], Or.inr rfl, rfl⟩
        · exact ⟨[], Or.inl rfl, (List.append_nil _).symm⟩
      generalize hw : a.value.takeWhile (fun c => c ≠ '#' && !isSpace c) = w at htake
      have hsub : w <+: a.value := hw ▸ List.takeWhile_prefix _
      have hshort : w.length ≤ 198 := by
        have := hsub.length_le
        omega
      have hquote : ∀ c ∈ w, decide (c ≠ '"') = true := fun c hc =>
        decide_eq_true (a.value_ne (hsub.subset hc)).2.1
      have hrest : (e.take (198 - w.length)).takeWhile (· ≠ '"') = [] := by
        rcases he with rfl | rfl
        · simp
        · cases 198 - w.length <;> simp
      rw [hword, htake, if_neg (List.cons_ne_nil _ _), List.take_succ_cons, unquote,
        List.take_append, List.take_of_length_le hshort, List.takeWhile_append_of_pos hquote, hrest,
        List.append_nil]

theorem setting_assign {blanks r : List Char} (hblanks : ∀ c ∈ blanks, isBlank c = true)
    (htext : ∀ c ∈ r, isText c = true) (hr : r = [] ∨ r.head? = some '#') :
    setting (a.name ++ '=' :: (a.body ++ (blanks ++ r))) =
      a.read.map fun value => (a.name, value) := by
  obtain ⟨spaces, hspaces, htake⟩ := takeWhile_trail a.body hblanks hr
  have hbody : ∀ c ∈ a.body, c ≠ '\x00' ∧ c ≠ '\\' := by
    intro c hc
    rcases a.mem_body hc with hc | rfl
    · exact ⟨(a.value_ne hc).1, (a.value_ne hc).2.2⟩
    · exact ⟨by decide, by decide⟩
  have hblank : ∀ d, isBlank d = false → ∀ c, isBlank c = true → c ≠ d := by
    rintro d hd c hc rfl
    rw [hd] at hc
    cases hc
  have hnul : cstr (a.name ++ '=' :: (a.body ++ (blanks ++ r))) =
      a.name ++ '=' :: (a.body ++ (blanks ++ r)) := by
    apply cstr_of_not_mem
    rw [List.mem_append, List.mem_cons, List.mem_append, List.mem_append]
    rintro (hc | hc | hc | hc | hc)
    · exact a.name_ne (by decide) hc
    · exact absurd hc (by decide)
    · exact (hbody _ hc).1 rfl
    · exact hblank _ (by decide) _ (hblanks _ hc) rfl
    · have h := htext _ hc
      simp only [isText, Bool.and_eq_true, decide_eq_true_eq] at h
      exact h.2 rfl
  have hcut : (a.name ++ '=' :: (a.body ++ (blanks ++ r))).takeWhile (· ≠ '#') =
      a.name ++ '=' :: (a.body.takeWhile (· ≠ '#') ++ spaces) := by
    rw [List.takeWhile_append_of_pos, List.takeWhile_cons_of_pos (by decide), htake]
    exact fun c hc => decide_eq_true fun heq => a.name_ne (d := '#') (by decide) (heq ▸ hc)
  -- so that the first comment character ends the line
  have hescape : '\\' ∉ a.name ++ '=' :: (a.body.takeWhile (· ≠ '#') ++ spaces) := by
    rw [List.mem_append, List.mem_cons, List.mem_append]
    rintro (hc | hc | hc | hc)
    · exact a.name_ne (by decide) hc
    · cases hc
    · exact (hbody _ (List.takeWhile_subset _ hc)).2 rfl
    · exact hblank '\\' (by decide) _ (hspaces _ hc) rfl
  have hline : aplGetstr '#' (a.name ++ '=' :: (a.body ++ (blanks ++ r))) =
      a.name ++ '=' :: (a.body.takeWhile (· ≠ '#') ++ spaces) := by
    have hhead : (a.name ++ '=' :: (a.body ++ (blanks ++ r))).head? ≠ some '#' := by
      obtain ⟨c, cs, hname⟩ := List.exists_cons_of_ne_nil a.name_ne_nil
      rw [hname, List.cons_append, List.head?_cons]
      intro heq
      exact a.name_ne (d := '#') (by decide) (by rw [hname, Option.some.inj heq]; exact List.mem_cons_self)
    simp only [aplGetstr, hnul, if_neg hhead]
    rw [← hcut] at hescape ⊢
    exact cutComment_eq hescape
  have hmem : '=' ∈ a.name ++ '=' :: (a.body.takeWhile (· ≠ '#') ++ spaces) :=
    List.mem_append_right _ List.mem_cons_self
  have hword : scanWord (a.body.takeWhile (· ≠ '#') ++ spaces) =
      scanWord (a.body.takeWhile (· ≠ '#')) :=
    scanWord_append_space _ fun c hc => isSpace_of_isBlank (hspaces c hc)
  rw [setting, hline]
  simp only [List.ne_nil_of_mem hmem, hmem, not_true_eq_false, or_self, if_false]
  rw [scanLine_eq (a.name_ne (by decide)), hword, ← read_eq_word]
  generalize scanWord (a.body.takeWhile (· ≠ '#')) = word
  by_cases hnil : word = []
  · simp [hnil]
  · simp [hnil, a.name_length, a.name_ne_nil]

end Beginning

/-! ## Whole files -/

section Lines

theorem linePieces_eq_cons (n : Nat) (u : List Char) :
    linePieces n u = u.take n :: (linePieces n u).tail := by
  rw [linePieces, List.range_succ_eq_map]
  simp

theorem Line.text_ne_newline (l : Line) : '\n' ∉ l.text := by
  cases l with
  | blank blanks h => exact fun hmem => absurd (h _ hmem) (by decide)
  | comment text h =>
      intro hmem
      rcases List.mem_cons.mp hmem with hmem | hmem
      · cases hmem
      · exact absurd (h _ hmem) (by decide)
  | assign a =>
      rw [Line.text, List.mem_append, List.mem_cons, List.mem_append, Assign.trail, List.mem_append]
      rintro (hmem | hmem | hmem | hmem | hmem)
      · exact a.name_ne (by decide) hmem
      · cases hmem
      · rcases a.mem_body hmem with hmem | hmem
        · have hvalue := a.value_ok _ hmem
          split at hvalue <;> exact absurd hvalue (by decide)
        · cases hmem
      · exact absurd (a.blanks_ok _ hmem) (by decide)
      · cases hr : a.remark with
        | none => simp [hr] at hmem
        | some text =>
            rw [hr, Option.map_some, Option.getD_some, List.mem_cons] at hmem
            rcases hmem with hmem | hmem
            · cases hmem
            · exact absurd ((a.remark_ok text hr).2 _ hmem) (by decide)

/-- The first piece of a line. -/
theorem setting_first (l : Line) : setting (l.text.take 999) = l.first := by
  cases l with
  | blank blanks h =>
      apply setting_eq_none
      exact fun hmem => absurd (h _ (List.mem_of_mem_take hmem)) (by decide)
  | comment text h => exact setting_comment (text.take 998)
  | assign a =>
      have hname := a.name_length
      have hvalue := a.value_length
      have hbody : a.body.length ≤ 200 := by
        rw [Assign.body]
        split
        · rw [List.length_append, List.length_cons, List.length_singleton]
          omega
        · omega
      -- name, equals sign and value are in the first piece; only the end of the line may be cut
      have htake : (Line.assign a).text.take 999 =
          a.name ++ '=' :: (a.body ++ a.trail.take (998 - a.name.length - a.body.length)) := by
        have hsub : 999 - a.name.length = (998 - a.name.length) + 1 := by omega
        rw [Line.text, List.take_append, List.take_of_length_le (by omega), hsub,
          List.take_succ_cons, List.take_append, List.take_of_length_le (by omega)]
      generalize 998 - a.name.length - a.body.length = k at htake
      rw [htake, Assign.trail, List.take_append]
      apply setting_assign
      · exact fun c hc => a.blanks_ok c (List.mem_of_mem_take hc)
      · intro c hc
        have hmem := List.mem_of_mem_take hc
        cases hr : a.remark with
        | none => simp [hr] at hmem
        | some text =>
            rw [hr, Option.map_some, Option.getD_some, List.mem_cons] at hmem
            rcases hmem with rfl | hmem
            · decide
            · exact (a.remark_ok text hr).2 c hmem
      · cases a.remark with
        | none => simp
        | some text => cases k - a.blanks.length <;> simp

/-- What the loader takes from a file. -/
theorem filterMap_piecesOf_textOf (lines : List Line) :
    (piecesOf 999 (textOf lines)).filterMap setting = lines.flatMap Line.taken := by
  have hnl : ∀ u ∈ lines.map Line.text, '\n' ∉ u := by
    intro u hu
    obtain ⟨l, -, rfl⟩ := List.mem_map.mp hu
    exact l.text_ne_newline
  rw [textOf, filterMap_piecesOf_intercalate (by decide) setting_newline (setting_eq_none (by simp)) hnl,
    List.flatMap_map]
  congr 1
  funext l
  rw [linePieces_eq_cons, List.filterMap_cons, setting_first, Line.taken, Line.rest]
  cases l.first with
  | none => rfl
  | some v => rfl

/-- A line that the loader reads as it is written: its value has no comment character and no
white space, it is not empty without quotes, and nothing is set from the rest of the line. -/
def Line.Clean (l : Line) : Prop :=
  l.rest = [] ∧ ∀ a, l = .assign a →
    (∀ c ∈ a.value, c ≠ '#' ∧ isSpace c = false) ∧ (a.quoted = false → a.value ≠ [])

theorem first_of_clean {l : Line} (h : l.Clean) : l.first = l.given := by
  cases l with
  | blank blanks hblanks => rfl
  | comment text htext => rfl
  | assign a =>
      obtain ⟨hvalue, hempty⟩ := h.2 a rfl
      have hall : ∀ c ∈ a.value, (decide (c ≠ '#') && !isSpace c) = true := by
        intro c hc
        rw [(hvalue c hc).2, decide_eq_true (hvalue c hc).1]
        rfl
      rw [Line.first, Line.given, Assign.read]
      cases hq : a.quoted with
      | true =>
          rw [if_pos rfl, List.takeWhile_eq_self_iff.mpr hall]
          rfl
      | false =>
          have hcut : a.value.takeWhile (· ≠ '#') = a.value :=
            List.takeWhile_eq_self_iff.mpr fun c hc => decide_eq_true (hvalue c hc).1
          have hword : scanWord a.value = a.value := by
            rw [scanWord_of_head fun c hc => (hvalue c (List.mem_of_mem_head? hc)).2,
              List.takeWhile_eq_self_iff]
            intro c hc
            rw [(hvalue c hc).2]
            rfl
          simp only [hcut, hword, hempty hq, if_false, Bool.false_eq_true, Option.map_some]

theorem flatMap_taken_of_clean {lines : List Line} (h : ∀ l ∈ lines, l.Clean) :
    lines.flatMap Line.taken = lines.filterMap Line.given := by
  induction lines with
  | nil => rfl
  | cons l lines ih =>
      obtain ⟨hl, hlines⟩ := List.forall_mem_cons.mp h
      rw [List.flatMap_cons, List.filterMap_cons, ih hlines, Line.taken, hl.1, first_of_clean hl]
      cases l.given with
      | none => rfl
      | some v => rfl

end Lines

/-! ## Both readers -/

section Readers

variable {files : Files} {confdir contname : List Char} {global container : List Line}
  (hglobal : files.content (confdir ++ "/vzgot_config".toList) = some (textOf global))
  (hcontainer : files.content (confdir ++ "/names/".toList ++ contname) = some (textOf container))
include hglobal hcontainer

theorem cfgLoadconfig_eq (dfltconfdir : List Char) (env : Env) :
    cfgLoadconfig files dfltconfdir (some confdir) (some contname) env =
      (0, ((global ++ container).flatMap Line.taken).foldl (putVar true) env) := by
  have hpath : ∀ {path text}, files.content path = some text →
      path.take (pathMax - 1) = path := by
    intro path text h
    apply List.take_of_length_le
    have := files.short path text h
    omega
  simp only [cfgLoadconfig, Option.getD_some, hpath hglobal, hpath hcontainer, gesenv, hglobal,
    hcontainer, filterMap_piecesOf_textOf, List.flatMap_append, List.foldl_append]

theorem sourceConfig_eq (env : Env) :
    sourceConfig files confdir contname env =
      some (((global ++ container).filterMap Line.given).foldl (putVar true) env) := by
  rw [sourceConfig, hglobal, Option.bind_some, source_textOf, Option.bind_some, hcontainer,
    Option.bind_some, source_textOf, List.filterMap_append, List.foldl_append]

/-- Loader and shell agree, in every environment, if and only if for every variable the
last value that is taken from a line is the last value that is written. -/
theorem loadconfig_agrees_iff (dfltconfdir : List Char) :
    (∀ env, sourceConfig files confdir contname env =
        some (cfgLoadconfig files dfltconfdir (some confdir) (some contname) env).2) ↔
      ∀ n, lastOf n ((global ++ container).flatMap Line.taken) =
        lastOf n ((global ++ container).filterMap Line.given) := by
  simp only [sourceConfig_eq hglobal hcontainer, cfgLoadconfig_eq hglobal hcontainer,
    Option.some.injEq]
  constructor
  · intro h n
    have hn := congrFun (h fun _ => none) n
    rw [foldl_putVar, foldl_putVar, Option.or_none, Option.or_none] at hn
    exact hn.symm
  · intro h env
    funext n
    rw [foldl_putVar, foldl_putVar, h n]

/-- Loader and shell agree when every line is clean. -/
theorem loadconfig_agrees_of_clean (dfltconfdir : List Char)
    (hclean : ∀ l ∈ global ++ container, l.Clean) (env : Env) :
    sourceConfig files confdir contname env =
      some (cfgLoadconfig files dfltconfdir (some confdir) (some contname) env).2 := by
  rw [sourceConfig_eq hglobal hcontainer, cfgLoadconfig_eq hglobal hcontainer,
    flatMap_taken_of_clean hclean]

end Readers

/-! ## Examples of files -/

/-- `NAME="value"` on a line of its own. -/
def quotedLine (name value : List Char)
    (h : (isName name && decide (name.length ≤ 100) && value.all isQuoted &&
      decide (value.length < 199)) = true) : Line :=
  have hname := ((Bool.and_eq_true _ _).mp ((Bool.and_eq_true _ _).mp ((Bool.and_eq_true _ _).mp h).1).1)
  .assign
    { name := name
      quoted := true
      value := value
      blanks := []
      remark := none
      name_ok := hname.1
      name_length := of_decide_eq_true hname.2
      value_ok := List.all_eq_true.mp ((Bool.and_eq_true _ _).mp ((Bool.and_eq_true _ _).mp h).1).2
      value_length := of_decide_eq_true ((Bool.and_eq_true _ _).mp h).2
      blanks_ok := List.forall_mem_nil _
      remark_ok := fun _ h => nomatch h }

/-- The directory `d` with two files in it, for the container `c`. -/
def twoFiles (global container : List Char) : Files where
  content path :=
    if path = "d/vzgot_config".toList then some global
    else if path = "d/names/c".toList then some container
    else none
  short := by
    intro path text h
    split at h
    · subst path
      decide
    · split at h
      · subst path
        decide
      · cases h

theorem twoFiles_global (global container : List Char) :
    (twoFiles global container).content (['d'] ++ "/vzgot_config".toList) = some global := by
  rw [twoFiles]
  simp only
  rw [if_pos (by decide)]

theorem twoFiles_container (global container : List Char) :
    (twoFiles global container).content (['d'] ++ "/names/".toList ++ ['c']) = some container := by
  rw [twoFiles]
  simp only
  rw [if_neg (by decide), if_pos (by decide)]

/-- The container file overrides `E="a"` of the common file by `E="b"`, in both readers. -/
theorem loadconfig_agrees_override :
    sourceConfig (twoFiles (textOf [quotedLine ['E'] ['a'] rfl]) (textOf [quotedLine ['E'] ['b'] rfl]))
        ['d'] ['c'] (fun _ => none) =
      some (cfgLoadconfig (twoFiles (textOf [quotedLine ['E'] ['a'] rfl])
        (textOf [quotedLine ['E'] ['b'] rfl])) [] (some ['d']) (some ['c']) fun _ => none).2 := by
  apply (loadconfig_agrees_iff (twoFiles_global _ _) (twoFiles_container _ _) []).mpr
  intro n
  apply congrArg (lastOf n)
  decide +kernel

/-- The shell reads the value of `E="a b"` up to the closing quote, the loader up to the blank. -/
theorem loadconfig_cuts_value :
    ((sourceConfig (twoFiles (textOf [quotedLine ['E'] ['a', ' ', 'b'] rfl])
        (textOf [])) ['d'] ['c'] fun _ => none).map fun env => env ['E']) = some (some ['a', ' ', 'b']) ∧
      (cfgLoadconfig (twoFiles (textOf [quotedLine ['E'] ['a', ' ', 'b'] rfl])
        (textOf [])) [] (some ['d']) (some ['c']) fun _ => none).2 ['E'] = some ['a'] := by
  decide +kernel

end Vzgot.Config
