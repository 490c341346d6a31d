import Mathlib.Logic.Function.Basic
import Vzgot.Library.Pieces
import Vzgot.Library.Shell

/-!
# Loading the configuration

`cfg_loadconfig` (`lib/subcfg.c`) puts the variables of `vzgot_config` and of the file of
the container into the environment; `gesenv` reads a file with `apl_getstr`
(`lib/utlapl.c`), piece by piece. The scripts source the same two files in the same order
(`sourceConfig`, as in `shell/vzgot.boot`).
-/

set_option autoImplicit false

namespace Vzgot.Config

open Vzgot.Stdio Vzgot.Pieces Vzgot.Shell

/-- Environment: the values of the variables. -/
abbrev Env := List Char → Option (List Char)

/-- `PATH_MAX` -/
def pathMax : Nat := 4096

/-- Files that can be opened for reading; a path that is too long cannot. -/
structure Files where
  content : List Char → Option (List Char)
  short : ∀ path text, content path = some text → path.length < pathMax

/-! ## One piece -/

/-- The string up to the first comment character without a backslash before it; such a
backslash is taken out, and the character behind its comment character is not looked at. -/
def cutComment (carcom : Char) : List Char → List Char
  | [] => []
  | [c] => if c = carcom then [] else [c]
  | c :: d :: cs =>
      if c = carcom then []
      else if c = '\\' ∧ d = carcom then
        match cs with
        | [] => [d]
        | e :: es => if e = carcom then d :: e :: cutComment carcom es else d :: cutComment carcom (e :: es)
      else c :: cutComment carcom (d :: cs)

section Comments

variable {carcom : Char} {s : List Char}

theorem cutComment_self (carcom : Char) (cs : List Char) : cutComment carcom (carcom :: cs) = [] := by
  cases cs <;> simp [cutComment.eq_def carcom (_ :: _)]

section Equations

variable {c d : Char} (hcar : c ≠ carcom)
include hcar

theorem cutComment_single : cutComment carcom [c] = [c] := by
  simp [cutComment.eq_def carcom (_ :: _), hcar]

theorem cutComment_cons (h : ¬ (c = '\\' ∧ d = carcom)) (cs : List Char) :
    cutComment carcom (c :: d :: cs) = c :: cutComment carcom (d :: cs) := by
  rw [cutComment.eq_def]
  simp only [if_neg hcar, if_neg h]

variable (h : c = '\\' ∧ d = carcom)
include h

theorem cutComment_escape : cutComment carcom [c, d] = [d] := by
  rw [cutComment.eq_def]
  simp only [if_neg hcar, if_pos h]

theorem cutComment_escape_self (cs : List Char) :
    cutComment carcom (c :: d :: carcom :: cs) = d :: carcom :: cutComment carcom cs := by
  rw [cutComment.eq_def]
  simp only [if_neg hcar, if_pos h, if_true]

theorem cutComment_escape_cons {e : Char} (he : e ≠ carcom) (cs : List Char) :
    cutComment carcom (c :: d :: e :: cs) = d :: cutComment carcom (e :: cs) := by
  rw [cutComment.eq_def]
  simp only [if_neg hcar, if_pos h, if_neg he]

end Equations

theorem mem_of_mem_cutComment {c : Char} (h : c ∈ cutComment carcom s) : c ∈ s := by
  induction s using cutComment.induct carcom with
  | case1 => exact h
  | case2 => simp [cutComment_self] at h
  | case3 d hcar => rwa [cutComment_single hcar] at h
  | case4 d ds => simp [cutComment_self] at h
  | case5 d e hcar hescape =>
      rw [cutComment_escape hcar hescape] at h
      exact List.mem_cons_of_mem d h
  | case6 d e hcar hescape es ih =>
      rw [cutComment_escape_self hcar hescape] at h
      simp only [List.mem_cons] at h ⊢
      exact Or.inr (h.imp_right (Or.imp_right ih))
  | case7 d e hcar hescape f es hf ih =>
      rw [cutComment_escape_cons hcar hescape hf] at h
      simp only [List.mem_cons] at h ⊢
      exact Or.inr (h.imp_right fun h => List.mem_cons.mp (ih h))
  | case8 d e es hcar hescape ih =>
      rw [cutComment_cons hcar hescape] at h
      rw [List.mem_cons] at h ⊢
      exact h.imp_right ih

/-- Without a backslash before it, the first comment character ends the string. -/
theorem cutComment_eq (h : '\\' ∉ s.takeWhile (· ≠ carcom)) :
    cutComment carcom s = s.takeWhile (· ≠ carcom) := by
  have hself : ∀ ds, (carcom :: ds).takeWhile (· ≠ carcom) = [] := fun ds =>
    List.takeWhile_cons_of_neg (by simp)
  have hcons : ∀ {d} ds, d ≠ carcom →
      (d :: ds).takeWhile (· ≠ carcom) = d :: ds.takeWhile (· ≠ carcom) := fun ds hd =>
    List.takeWhile_cons_of_pos (by simpa using hd)
  -- cases 5 to 7 are the escaped comment character: its backslash would stand in front of it
  induction s using cutComment.induct carcom with
  | case1 => rfl
  | case2 => rw [cutComment_self, hself]
  | case3 d hcar => rw [cutComment_single hcar, hcons _ hcar, List.takeWhile_nil]
  | case4 d ds => rw [cutComment_self, hself]
  | case5 d e hcar hescape => exact absurd List.mem_cons_self (hescape.1 ▸ hcons _ hcar ▸ h)
  | case6 d e hcar hescape es ih =>
      exact absurd List.mem_cons_self (hescape.1 ▸ hcons _ hcar ▸ h)
  | case7 d e hcar hescape f es hf ih =>
      exact absurd List.mem_cons_self (hescape.1 ▸ hcons _ hcar ▸ h)
  | case8 d e es hcar hescape ih =>
      rw [hcons _ hcar] at h ⊢
      rw [cutComment_cons hcar hescape, ih fun hmem => h (List.mem_cons_of_mem d hmem)]

/-- A newline behind the string is cut off or stays behind it. -/
theorem cutComment_newline (hne : carcom ≠ '\n') (s : List Char) :
    cutComment carcom (s ++ ['\n']) = cutComment carcom s ∨
      cutComment carcom (s ++ ['\n']) = cutComment carcom s ++ ['\n'] := by
  have hnl : '\n' ≠ carcom := hne.symm
  induction s using cutComment.induct carcom with
  | case1 => exact Or.inr (cutComment_single hnl)
  | case2 => exact Or.inl (by rw [List.singleton_append, cutComment_self, cutComment_self])
  | case3 d hcar =>
      right
      have hplain : ¬ (d = '\\' ∧ '\n' = carcom) := fun h => hnl h.2
      rw [List.singleton_append, cutComment_cons hcar hplain, cutComment_single hcar,
        cutComment_single hnl]
      rfl
  | case4 d ds => exact Or.inl (by rw [List.cons_append, cutComment_self, cutComment_self])
  | case5 d e hcar hescape =>
      right
      rw [List.cons_append, List.singleton_append, cutComment_escape_cons hcar hescape hnl,
        cutComment_escape hcar hescape, cutComment_single hnl]
      rfl
  | case6 d e hcar hescape es ih =>
      simp only [List.cons_append, cutComment_escape_self hcar hescape]
      exact ih.imp (fun h => by rw [h]) fun h => by rw [h]
  | case7 d e hcar hescape f es hf ih =>
      simp only [List.cons_append, cutComment_escape_cons hcar hescape hf] at ih ⊢
      exact ih.imp (fun h => by rw [h]) fun h => by rw [h]
  | case8 d e es hcar hescape ih =>
      simp only [List.cons_append, cutComment_cons hcar hescape] at ih ⊢
      exact ih.imp (fun h => by rw [h]) fun h => by rw [h]

end Comments

/-- What `apl_getstr` makes of the piece that it has read. The loop that is to strip the
newline starts at the closing NUL and strips nothing. -/
def aplGetstr (carcom : Char) (piece : List Char) : List Char :=
  let str := cstr piece
  if str.head? = some carcom then [] else cutComment carcom str

/-- `sscanf(line,"%100[^=]=%199s",var,contents)`, when it converts both. -/
def scanLine (line : List Char) : Option (List Char × List Char) :=
  let var := (line.takeWhile (· ≠ '=')).take 100
  match line.drop var.length with
  | '=' :: rest =>
      let contents := (scanWord rest).take 199
      if var = [] ∨ contents = [] then none else some (var, contents)
  | _ => none

/-- The value without the quotes around it. -/
def unquote : List Char → List Char
  | '"' :: contents => contents.takeWhile (· ≠ '"')
  | contents => contents

/-- Name and value that `gesenv` finds in a piece. -/
def setting (piece : List Char) : Option (List Char × List Char) :=
  let line := aplGetstr '#' piece
  if line = [] ∨ '=' ∉ line then none
  else (scanLine line).map fun v => (v.1, unquote v.2)

/-! ## Files -/

/-- `setenv` and `unsetenv` -/
def putVar (toadd : Bool) (env : Env) (v : List Char × List Char) : Env :=
  Function.update env v.1 (if toadd then some v.2 else none)

/-- `gesenv`: its status, and the environment. -/
def gesenv (files : Files) (filename : List Char) (toadd : Bool) (env : Env) : Int × Env :=
  match files.content filename with
  | none => (-1, env)
  | some text => (0, ((piecesOf 999 text).filterMap setting).foldl (putVar toadd) env)

/-- `cfg_loadconfig`; `dfltconfdir` is the directory that `apl_dfltconfdir` gives. -/
def cfgLoadconfig (files : Files) (dfltconfdir : List Char) (confdir contname : Option (List Char))
    (env : Env) : Int × Env :=
  let dir := confdir.getD dfltconfdir
  match gesenv files ((dir ++ "/vzgot_config".toList).take (pathMax - 1)) true env, contname with
  | (0, env), some cont =>
      gesenv files ((dir ++ "/names/".toList ++ cont).take (pathMax - 1)) true env
  | r, _ => r

/-- A shell sources a text of assignments. -/
def source (text : List Char) (env : Env) : Option Env :=
  (commandsOf text).bind fun commands =>
    (assignmentsOf commands).map fun vs => vs.foldl (putVar true) env

/-- A shell sources both files. -/
def sourceConfig (files : Files) (confdir contname : List Char) (env : Env) : Option Env :=
  (files.content (confdir ++ "/vzgot_config".toList)).bind fun global =>
    (source global env).bind fun env =>
      (files.content (confdir ++ "/names/".toList ++ contname)).bind fun text => source text env

/-- The last value that is given to a variable. -/
def lastOf (n : List Char) : List (List Char × List Char) → Option (List Char)
  | [] => none
  | v :: vs => (lastOf n vs).or (if v.1 = n then some v.2 else none)

theorem foldl_putVar (vs : List (List Char × List Char)) (env : Env) (n : List Char) :
    vs.foldl (putVar true) env n = (lastOf n vs).or (env n) := by
  induction vs generalizing env with
  | nil => simp [lastOf]
  | cons v vs ih =>
      rw [List.foldl_cons, ih, lastOf, Option.or_assoc]
      congr 1
      by_cases h : v.1 = n
      · subst h
        simp [putVar]
      · simp [putVar, h, Function.update_of_ne (Ne.symm h)]

end Vzgot.Config
