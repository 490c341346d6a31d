import Vzgot.Command.Inject
import Vzgot.Command.Vocabulary

/-!
# The actions that are scripts

`action` (`app/vzgot.c`) looks its first word up in `vocaction` and hands what follows to a
script: `vzscript` puts a blank behind every argument, `create` takes one or two arguments and
`destroy` one, and `cnt_initscript` (`lib/unicnt.c`) puts the text behind the path of the script
into a line for `popen`. The script is called with the arguments as they were exactly when
nothing in them means anything to the shell of the host (`action_words_iff`).
-/

set_option autoImplicit false

open Vzgot.Shell Vzgot.Command

namespace Vzgot.Dispatch

/-! ## The lines -/

/-- `apl_getvoca(vocaction,argv[0])`, as far as `action` looks at it. -/
def codeOf (word : List Char) : ActionCode :=
  match aplGetvoca (some vocaction.toTable) word with
  | some found => (vocaction.toTable.entry found.1).1
  | none => .unknown

/-- The scripts of the actions. -/
def scriptOf : ActionCode → Option (List Char)
  | .onboot => some "vzgot.onboot".toList
  | .offboot => some "vzgot.offboot".toList
  | .create => some "vzgot.create".toList
  | .destroy => some "vzgot.destroy".toList
  | .freeze => some "vzgot.freeze".toList
  | .list => some "vzgot.list".toList
  | .movefrom => some "vzgot.movefrom".toList
  | .online => some "vzgot.online".toList
  | .sleep => some "vzgot.sleep".toList
  | .standby => some "vzgot.standby".toList
  | .rebuild => some "vzgot.rebuild".toList
  | .boot | .reboot | .shutdown | .enter | .exec | .status | .unknown => none

/-- Path of a script. -/
def scriptPath (scriptname : List Char) : List Char := libexecpath ++ "/shell/".toList ++ scriptname

/-- `cmd` of `cnt_initscript`. -/
def initscriptCmd (scriptname parmlst : List Char) : List Char :=
  scriptPath scriptname ++ ' ' :: parmlst

/-- `parmlst` of `create`: `"%s"` or `"%s %s"`, and no more than `argv[1]`. -/
def createParms : List (List Char) → Option (List Char)
  | [] => none
  | [a] => some a
  | a :: b :: _ => some (a ++ ' ' :: b)

/-- `parmlst` of `destroy`. -/
def destroyParms : List (List Char) → Option (List Char)
  | [] => none
  | a :: _ => some a

/-- `parmlst` of an action; without enough arguments no script is called. -/
def parmsOf : ActionCode → List (List Char) → Option (List Char)
  | .create, args => createParms args
  | .destroy, args => destroyParms args
  | _, args => some (params args)

/-- The line that `action` has the host run. -/
def action : List (List Char) → Option (List Char)
  | [] => none
  | word :: args =>
      (scriptOf (codeOf word)).bind fun script =>
        (parmsOf (codeOf word) args).map (initscriptCmd script)

/-- Numbers of arguments that are all handed on. -/
def Takes : ActionCode → Nat → Prop
  | .create, n => n = 1 ∨ n = 2
  | .destroy, n => n = 1
  | _, _ => True

/-! ## The words of a line -/

section Words

variable {code : ActionCode} {script : List Char} {args : List (List Char)}

/-- The paths of the scripts mean nothing else to the shell. -/
theorem scriptPath_safe (h : scriptOf code = some script) :
    SafeWord (scriptPath script) ∧ assignment (plainWord (scriptPath script)) = none := by
  cases code <;> cases h
  all_goals
    refine ⟨⟨by decide, List.all_eq_true.mp (by decide), by decide, by decide, by decide⟩, by decide⟩

theorem initscriptCmd_params : initscriptCmd script (params args) = blanked (scriptPath script :: args) := by
  rw [initscriptCmd, params_eq, blanked, blanked, List.flatMap_cons, List.append_assoc]
  rfl

/-- A line that is the script and some of the arguments with single blanks does not give back
more words than these. -/
theorem joined_short {used dropped : List (List Char)} (hdropped : dropped ≠ [])
    (h : simpleCommand ([' '].intercalate (scriptPath script :: used)) =
      some (scriptPath script :: (used ++ dropped))) : False := by
  obtain ⟨c, cs, rfl⟩ := List.exists_cons_of_ne_nil hdropped
  obtain ⟨hle, hsafe⟩ := simpleCommand_size h
  have hline := congrArg List.length (blanked_eq (List.cons_ne_nil (scriptPath script) used))
  rw [List.length_append, List.length_singleton] at hline
  have hmore : (blanked (scriptPath script :: (used ++ c :: cs))).length =
      (blanked (scriptPath script :: used)).length + c.length + 1 + (blanked cs).length := by
    rw [← List.cons_append, blanked_append, List.length_append]
    simp [blanked]
    omega
  -- only one empty word could be added, and that is not read back
  have hc : c.length = 0 := by omega
  have hall := hsafe (by omega) c (by simp)
  exact hall.1 (List.length_eq_zero_iff.mp hc)

theorem joined_iff (hcode : scriptOf code = some script) :
    simpleCommand ([' '].intercalate (scriptPath script :: args)) = some (scriptPath script :: args) ↔
      ∀ a ∈ args, SafeWord a := by
  obtain ⟨hpath, hassign⟩ := scriptPath_safe hcode
  rw [simpleCommand_joined hassign, List.forall_mem_cons]
  exact and_iff_right hpath

theorem blanked_iff (hcode : scriptOf code = some script) :
    simpleCommand (blanked (scriptPath script :: args)) = some (scriptPath script :: args) ↔
      ∀ a ∈ args, SafeWord a := by
  obtain ⟨hpath, hassign⟩ := scriptPath_safe hcode
  constructor
  · intro h a ha
    exact safe_of_blanked h a (List.mem_cons_of_mem _ ha)
  · intro h
    have hread := simpleCommand_safe (List.forall_mem_cons.mpr ⟨hpath, h⟩) hassign
      (List.forall_mem_nil _)
    rwa [List.append_nil] at hread

theorem initscriptCmd_one (a : List Char) :
    initscriptCmd script a = [' '].intercalate [scriptPath script, a] := by
  rw [initscriptCmd, List.intercalate_cons_cons, List.intercalate_singleton]
  simp

theorem initscriptCmd_two (a b : List Char) :
    initscriptCmd script (a ++ ' ' :: b) = [' '].intercalate [scriptPath script, a, b] := by
  rw [initscriptCmd, List.intercalate_cons_cons, List.intercalate_cons_cons,
    List.intercalate_singleton]
  simp

theorem create_iff (hcode : scriptOf code = some script) :
    ((createParms args).map (initscriptCmd script)).bind simpleCommand =
        some (scriptPath script :: args) ↔
      (∀ a ∈ args, SafeWord a) ∧ (args.length = 1 ∨ args.length = 2) := by
  match args with
  | [] => simp [createParms]
  | [a] =>
      rw [← joined_iff hcode, createParms, Option.map_some, Option.bind_some, initscriptCmd_one]
      exact (and_iff_left (.inl rfl)).symm
  | [a, b] =>
      rw [← joined_iff hcode, createParms, Option.map_some, Option.bind_some, initscriptCmd_two]
      exact (and_iff_left (.inr rfl)).symm
  | a :: b :: c :: cs =>
      rw [createParms, Option.map_some, Option.bind_some, initscriptCmd_two]
      constructor
      · exact fun h => (joined_short (List.cons_ne_nil c cs) h).elim
      · rintro ⟨-, h⟩
        simp only [List.length_cons] at h
        omega

theorem destroy_iff (hcode : scriptOf code = some script) :
    ((destroyParms args).map (initscriptCmd script)).bind simpleCommand =
        some (scriptPath script :: args) ↔
      (∀ a ∈ args, SafeWord a) ∧ args.length = 1 := by
  match args with
  | [] => simp [destroyParms]
  | [a] =>
      rw [← joined_iff hcode, destroyParms, Option.map_some, Option.bind_some, initscriptCmd_one]
      exact (and_iff_left rfl).symm
  | a :: b :: bs =>
      rw [destroyParms, Option.map_some, Option.bind_some, initscriptCmd_one]
      constructor
      · exact fun h => (joined_short (List.cons_ne_nil b bs) h).elim
      · rintro ⟨-, h⟩
        simp only [List.length_cons] at h
        omega

end Words

/-- The script of an action is called with exactly the words of the user, and nothing else is
run, if and only if all of them are safe words and the action takes so many. -/
theorem action_words_iff {word script : List Char} (hcode : scriptOf (codeOf word) = some script)
    (args : List (List Char)) :
    (action (word :: args)).bind simpleCommand = some (scriptPath script :: args) ↔
      (∀ a ∈ args, SafeWord a) ∧ Takes (codeOf word) args.length := by
  rw [action, hcode, Option.bind_some]
  generalize codeOf word = code at hcode ⊢
  cases code with
  | create => exact create_iff hcode
  | destroy => exact destroy_iff hcode
  | _ =>
      rw [parmsOf, Option.map_some, Option.bind_some, initscriptCmd_params, blanked_iff hcode]
      · exact (and_iff_left trivial).symm
      all_goals simp

/-- A name with a semicolon does not reach `vzgot.destroy`, one without does. -/
theorem action_words_iff_destroy :
    (action ["destroy".toList, "web".toList]).bind simpleCommand =
        some [scriptPath "vzgot.destroy".toList, "web".toList] ∧
      (action ["destroy".toList, "a;b".toList]).bind simpleCommand ≠
        some [scriptPath "vzgot.destroy".toList, "a;b".toList] := by
  have hword : codeOf "destroy".toList = .destroy := by decide
  have hcode : scriptOf (codeOf "destroy".toList) = some "vzgot.destroy".toList := by
    rw [hword]
    rfl
  constructor
  · rw [action_words_iff hcode, hword, List.forall_mem_singleton]
    exact ⟨⟨by decide, List.all_eq_true.mp (by decide), by decide, by decide, by decide⟩, rfl⟩
  · rw [ne_eq, action_words_iff hcode, List.forall_mem_singleton]
    rintro ⟨hsafe, -⟩
    exact absurd (hsafe.2.1 ';' (by decide)) (by decide)

end Vzgot.Dispatch
